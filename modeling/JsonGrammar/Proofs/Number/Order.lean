import JsonGrammar.Proofs.Number.Conversion

/-!
# Rounding keeps the order

A greater rational rounds to a magnitude that is at least as great
(`Nearest.mono`), and so whatever lies between two rationals of one magnitude
rounds to it as well (`Nearest.of_between`).

Which rationals have a finite magnitude is then settled at one point, the
middle between the greatest finite value and the value of infinity.  It rounds
to infinity, whose magnitude is even (`Nearest.lt_infinity_iff`).
-/

namespace JsonGrammar

namespace Binary64

/-- Where the greater of two values is as near as the other one, the rational
is not below their middle. -/
theorem add_le_of_abs_le {a b q : ℚ} (hab : a < b) (h : |b - q| ≤ |a - q|) : a + b ≤ 2 * q := by
  have hsquares : (b - q) ^ 2 ≤ (a - q) ^ 2 := sq_le_sq.mpr h
  by_contra hlt
  have hpos : 0 < (b - a) * (a + b - 2 * q) := mul_pos (by linarith) (by linarith)
  linarith

theorem le_add_of_abs_le {a b q : ℚ} (hab : a < b) (h : |a - q| ≤ |b - q|) : 2 * q ≤ a + b := by
  have hsquares : (a - q) ^ 2 ≤ (b - q) ^ 2 := sq_le_sq.mpr h
  by_contra hlt
  have hpos : 0 < (b - a) * (2 * q - (a + b)) := mul_pos (by linarith) (by linarith)
  linarith

/-- Rounding keeps the order. -/
theorem Nearest.mono {p q : ℚ} {k m : Nat} (hk : Nearest p k) (hm : Nearest q m) (hpq : p ≤ q) :
    k ≤ m := by
  by_contra hnot
  have hlt : value m < value k := strictMono_value (Nat.lt_of_not_le hnot)
  have hp := add_le_of_abs_le hlt (hk.nearest m hm.le_infinity)
  have hq := le_add_of_abs_le hlt (hm.nearest k hk.le_infinity)
  -- Both are the middle of the two values, and that has one magnitude only.
  obtain rfl : p = q := by linarith
  exact hnot (hk.unique hm).le

/-- What lies between two rationals of one magnitude has that magnitude. -/
theorem Nearest.of_between {p q r : ℚ} {k m : Nat} (hp : Nearest p m) (hr : Nearest r m)
    (hq : Nearest q k) (hpq : p ≤ q) (hqr : q ≤ r) : k = m :=
  le_antisymm (hq.mono hr hqr) (hp.mono hq hpq)

/-- A double is known by its sign and by a rational that rounds to its
magnitude. -/
theorem eq_of_nearest {q : ℚ} {x y : Binary64} (hsign : x.negative = y.negative)
    (hx : Nearest q x.magnitude) (hy : Nearest q y.magnitude) : x = y := by
  have hmagnitude := hx.unique hy
  rcases x with ⟨_, _, _⟩
  rcases y with ⟨_, _, _⟩
  simp only at hsign hmagnitude
  subst hsign hmagnitude
  rfl

/-! ## The greatest finite value -/

theorem value_greatest : value (infinity - 1) = 2 ^ 1024 - 2 ^ 971 := by
  have hsteps := value_steps 2045 (2 ^ 53 - 1) (Or.inr (by decide)) (by decide)
  rw [show infinity - 1 = 2045 * 2 ^ 52 + (2 ^ 53 - 1) from rfl, hsteps, ← mul_div_assoc,
    div_eq_iff (by positivity), Nat.cast_sub (by decide), Nat.cast_pow, Nat.cast_ofNat,
    Nat.cast_one, sub_mul, sub_mul, one_mul, ← pow_add, ← pow_add, ← pow_add]

/-- The middle between the greatest finite value and the one that would come
next. -/
def leastInfinite : ℚ :=
  2 ^ 1024 - 2 ^ 970

theorem value_add_value_infinity :
    value (infinity - 1) + value infinity = 2 * leastInfinite := by
  have hdouble : (2 : ℚ) ^ 971 = 2 ^ 970 * 2 := pow_succ 2 970
  rw [value_greatest, value_infinity, leastInfinite, hdouble]
  generalize (2 : ℚ) ^ 1024 = infinite
  generalize (2 : ℚ) ^ 970 = step
  ring

theorem nearest_leastInfinite : Nearest leastInfinite infinity := by
  have hlt : value (infinity - 1) < value infinity := strictMono_value (by decide)
  have hsum := value_add_value_infinity
  have hbelow : value (infinity - 1) ≤ leastInfinite := by linarith
  have habove : leastInfinite ≤ value infinity := by linarith
  exact nearest_of_upper hbelow habove (Or.inr ⟨hsum.symm, by decide⟩)

/-- The rationals below the middle behind the greatest finite value are those
that round to a finite one. -/
theorem Nearest.lt_infinity_iff {q : ℚ} {m : Nat} (hm : Nearest q m) :
    m < infinity ↔ q < leastInfinite := by
  constructor
  · intro hfinite
    by_contra hle
    have hmono := nearest_leastInfinite.mono hm (le_of_not_gt hle)
    omega
  · intro hq
    refine lt_of_le_of_ne hm.le_infinity fun heq => ?_
    subst heq
    have hlt : value (infinity - 1) < value infinity := strictMono_value (by decide)
    have hnear := add_le_of_abs_le hlt (hm.nearest (infinity - 1) (Nat.sub_le _ _))
    rw [value_add_value_infinity] at hnear
    linarith

end Binary64

end JsonGrammar
