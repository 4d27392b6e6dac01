import JsonGrammar.Number.Rounding
import Mathlib.Algebra.Order.Field.Rat
import Mathlib.Order.Monotone.Basic
import Mathlib.Algebra.Ring.Parity
import Mathlib.Tactic.Linarith
import Mathlib.Tactic.Positivity
import Mathlib.Tactic.NormNum

/-!
# Nearest doubles

The values of the magnitudes are a strictly increasing sequence of rationals
(`strictMono_value`).  Infinity stands in that sequence for the value that
would come next if there were room for one more exponent, which is 2^1024.

`Nearest q m` says that `m` is the magnitude that `q` rounds to: among all
magnitudes up to infinity its value is closest to `q`, and where two are
equally close it is the even one.  At most one magnitude is nearest
(`Nearest.unique`).  To show that one is, it is enough to know the two
magnitudes around `q` and on which side of their middle it lies
(`nearest_of_lower`, `nearest_of_upper`).
-/

namespace JsonGrammar

namespace Binary64

/-! ## The values of the magnitudes -/

theorem units_eq (magnitude : Nat) :
    units magnitude =
      if magnitude < 2 ^ 52 then magnitude
      else (2 ^ 52 + magnitude % 2 ^ 52) * 2 ^ (magnitude / 2 ^ 52 - 1) := rfl

theorem units_of_lt {magnitude : Nat} (h : magnitude < 2 ^ 52) : units magnitude = magnitude := by
  rw [units_eq, if_pos h]

/-- In a binade the units grow with the magnitude, by equal steps. -/
theorem units_binade {doublings steps : Nat} (hlow : 2 ^ 52 ≤ steps) (hhigh : steps < 2 ^ 53) :
    units (doublings * 2 ^ 52 + steps) = steps * 2 ^ doublings := by
  have hmod : (doublings * 2 ^ 52 + steps) % 2 ^ 52 = steps - 2 ^ 52 := by omega
  have hdiv : (doublings * 2 ^ 52 + steps) / 2 ^ 52 - 1 = doublings := by omega
  rw [units_eq, if_neg (by omega), hmod, hdiv, Nat.add_sub_cancel' hlow]

/-- The same with the subnormal numbers in front of the first binade, and with
the magnitude at which the next binade begins. -/
theorem units_steps {doublings steps : Nat} (hlow : doublings = 0 ∨ 2 ^ 52 ≤ steps)
    (hhigh : steps ≤ 2 ^ 53) :
    units (doublings * 2 ^ 52 + steps) = steps * 2 ^ doublings := by
  by_cases hsub : steps < 2 ^ 52
  · obtain rfl : doublings = 0 := by omega
    rw [Nat.zero_mul, Nat.zero_add, units_of_lt hsub, Nat.pow_zero, Nat.mul_one]
  · by_cases hnext : steps = 2 ^ 53
    · have hstart : doublings * 2 ^ 52 + steps = (doublings + 1) * 2 ^ 52 + 2 ^ 52 := by omega
      rw [hstart, units_binade (Nat.le_refl _) (by decide), hnext, Nat.pow_succ' (n := doublings),
        ← Nat.mul_assoc, show (2 : Nat) ^ 52 * 2 = 2 ^ 53 from rfl]
    · exact units_binade (by omega) (by omega)

/-- Every magnitude is some steps into the subnormal numbers or a binade. -/
theorem exists_steps (magnitude : Nat) :
    ∃ doublings steps, magnitude = doublings * 2 ^ 52 + steps ∧
      (doublings = 0 ∨ 2 ^ 52 ≤ steps) ∧ steps < 2 ^ 53 := by
  by_cases hlt : magnitude < 2 ^ 52
  · exact ⟨0, magnitude, by omega, by omega, by omega⟩
  · exact ⟨magnitude / 2 ^ 52 - 1, magnitude % 2 ^ 52 + 2 ^ 52, by omega, by omega, by omega⟩

theorem units_strictMono : StrictMono units := by
  refine strictMono_nat_of_lt_succ fun magnitude => ?_
  obtain ⟨doublings, steps, rfl, hlow, hhigh⟩ := exists_steps magnitude
  rw [Nat.add_assoc, units_steps hlow (by omega), units_steps (by omega) (by omega)]
  exact Nat.mul_lt_mul_of_pos_right (Nat.lt_succ_self steps) (Nat.two_pow_pos doublings)

/-- The value of a magnitude.  That of infinity is the next one behind the
finite values. -/
def value (magnitude : Nat) : ℚ :=
  units magnitude / 2 ^ 1074

theorem strictMono_value : StrictMono value := by
  intro k m hkm
  have hunits : (units k : ℚ) < units m := by exact_mod_cast units_strictMono hkm
  exact div_lt_div_of_pos_right hunits (by positivity)

@[simp] theorem value_zero : value 0 = 0 := by
  rw [value, units_of_lt (by decide), Nat.cast_zero, zero_div]

theorem value_nonneg (magnitude : Nat) : 0 ≤ value magnitude := by
  rw [← value_zero]
  exact strictMono_value.monotone (Nat.zero_le magnitude)

/-! ## The nearest magnitude -/

/-- The magnitude that a rational rounds to: the nearest one up to infinity,
and of two that are equally near the even one. -/
structure Nearest (q : ℚ) (magnitude : Nat) : Prop where
  le_infinity : magnitude ≤ infinity
  nearest : ∀ k ≤ infinity, |value magnitude - q| ≤ |value k - q|
  even : ∀ k ≤ infinity, k ≠ magnitude → |value k - q| = |value magnitude - q| →
    magnitude % 2 = 0

/-- Two magnitudes that are equally near lie on both sides. -/
theorem value_add_value_of_equidistant {q : ℚ} {k m : Nat} (hkm : k < m)
    (hdistance : |value k - q| = |value m - q|) : value k + value m = 2 * q := by
  have hlt := strictMono_value hkm
  rcases abs_eq_abs.mp hdistance with h | h <;> linarith

/-- A rational rounds to one magnitude only. -/
theorem Nearest.unique {q : ℚ} {k m : Nat} (hk : Nearest q k) (hm : Nearest q m) : k = m := by
  have hdistance : |value k - q| = |value m - q| :=
    le_antisymm (hk.nearest m hm.le_infinity) (hm.nearest k hk.le_infinity)
  -- Of two different ones both would be even, and the one between them nearer.
  have hno : ∀ {k m : Nat}, Nearest q k → Nearest q m → |value k - q| = |value m - q| →
      ¬ k < m := by
    intro k m hk hm hdistance hkm
    have hkeven := hk.even m hm.le_infinity (by omega) hdistance.symm
    have hmeven := hm.even k hk.le_infinity (by omega) hdistance
    have hbetween := hk.nearest (k + 1) (by have := hm.le_infinity; omega)
    have hlow := strictMono_value (show k < k + 1 by omega)
    have hhigh := strictMono_value (show k + 1 < m by omega)
    have hsum := value_add_value_of_equidistant hkm hdistance
    have hcloser : |value (k + 1) - q| < |value k - q| := by
      rw [abs_of_nonpos (by linarith : value k - q ≤ 0), abs_lt]
      constructor <;> linarith
    linarith
  have hkm := hno hk hm hdistance
  have hmk := hno hm hk hdistance.symm
  omega

/-- Beyond the value of infinity everything rounds to infinity. -/
theorem nearest_infinity {q : ℚ} (hq : value infinity ≤ q) : Nearest q infinity := by
  have hdistance : ∀ k ≤ infinity, |value k - q| = q - value k := by
    intro k hk
    have hle := strictMono_value.monotone hk
    rw [abs_of_nonpos (by linarith), neg_sub]
  refine ⟨Nat.le_refl _, fun k hk => ?_, fun k hk hne heq => ?_⟩
  · have hle := strictMono_value.monotone hk
    rw [hdistance k hk, hdistance infinity (Nat.le_refl _)]
    linarith
  · have hlt := strictMono_value (lt_of_le_of_ne hk hne)
    rw [hdistance k hk, hdistance infinity (Nat.le_refl _)] at heq
    linarith

/-- Of the two neighbours around a rational the nearer one is nearest of
all. -/
theorem nearest_of_neighbours {q : ℚ} {low m : Nat} (hlow : value low ≤ q)
    (hhigh : q ≤ value (low + 1)) (hm : m = low ∨ m = low + 1)
    (hmlow : |value m - q| ≤ q - value low) (hmhigh : |value m - q| ≤ value (low + 1) - q)
    (heven : q - value low = value (low + 1) - q → m % 2 = 0) :
    Nearest q (min m infinity) := by
  by_cases hfinite : m ≤ infinity
  · have hbelow : |value low - q| = q - value low := by
      rw [abs_of_nonpos (by linarith), neg_sub]
    have habove : |value (low + 1) - q| = value (low + 1) - q := abs_of_nonneg (by linarith)
    rw [Nat.min_eq_left hfinite]
    refine ⟨hfinite, fun k _ => ?_, fun k _ hne heq => ?_⟩
    · by_cases hk : k ≤ low
      · have hmono := strictMono_value.monotone hk
        exact hmlow.trans (le_trans (by linarith) (neg_le_abs (value k - q)))
      · have hmono := strictMono_value.monotone (show low + 1 ≤ k by omega)
        exact hmhigh.trans (le_trans (by linarith) (le_abs_self (value k - q)))
    · -- Only the other neighbour can be as near.
      have hk : k = low ∨ k = low + 1 := by
        by_contra hother
        rcases Nat.lt_or_ge k low with hlt | hge
        · have hmono := strictMono_value hlt
          have habs := neg_le_abs (value k - q)
          linarith
        · have hmono := strictMono_value (show low + 1 < k by omega)
          have habs := le_abs_self (value k - q)
          linarith
      apply heven
      rcases hm with rfl | rfl
      · obtain rfl := hk.resolve_left hne
        linarith
      · obtain rfl := hk.resolve_right hne
        linarith
  · rw [Nat.min_eq_right (by omega)]
    have hmono := strictMono_value.monotone (show infinity ≤ low by omega)
    exact nearest_infinity (hmono.trans hlow)

/-- A rational between two neighbours that is not above their middle rounds to
the lower one. -/
theorem nearest_of_lower {q : ℚ} {low : Nat} (hlow : value low ≤ q)
    (hmiddle : 2 * q < value low + value (low + 1) ∨
      2 * q = value low + value (low + 1) ∧ low % 2 = 0) :
    Nearest q (min low infinity) := by
  have hle : 2 * q ≤ value low + value (low + 1) := by
    rcases hmiddle with h | ⟨h, -⟩ <;> linarith
  have hdistance : |value low - q| = q - value low := by
    rw [abs_of_nonpos (by linarith), neg_sub]
  refine nearest_of_neighbours hlow (by linarith) (Or.inl rfl) hdistance.le
    (by linarith) fun heq => ?_
  rcases hmiddle with h | ⟨-, heven⟩
  · linarith
  · exact heven

/-- A rational between two neighbours that is not below their middle rounds to
the upper one. -/
theorem nearest_of_upper {q : ℚ} {low : Nat} (hlow : value low ≤ q) (hhigh : q ≤ value (low + 1))
    (hmiddle : value low + value (low + 1) < 2 * q ∨
      2 * q = value low + value (low + 1) ∧ (low + 1) % 2 = 0) :
    Nearest q (min (low + 1) infinity) := by
  have hle : value low + value (low + 1) ≤ 2 * q := by
    rcases hmiddle with h | ⟨h, -⟩ <;> linarith
  have hdistance : |value (low + 1) - q| = value (low + 1) - q := abs_of_nonneg (by linarith)
  refine nearest_of_neighbours hlow hhigh (Or.inr rfl) (by linarith) hdistance.le fun heq => ?_
  rcases hmiddle with h | ⟨-, heven⟩
  · linarith
  · exact heven

end Binary64

end JsonGrammar
