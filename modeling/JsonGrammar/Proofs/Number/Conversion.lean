import JsonGrammar.Number.Decimal
import JsonGrammar.Proofs.Number.Nearest
import Mathlib.Tactic.FieldSimp
import Mathlib.Tactic.Ring

/-!
# Decimals become the nearest doubles

The double that is computed for a decimal has the decimal's sign and the
magnitude its value rounds to (`Decimal.nearest_toBinary64`), be the value
ordinary, far too small or far too large.  So it depends on the value alone
and not on how many digits it is written with.
-/

namespace JsonGrammar

namespace Binary64

/-! ## Quotients of units -/

/-- The binade of a number of units is the one with 53 binary digits left. -/
theorem doublings_spec (n : Nat) :
    n / 2 ^ doublings n < 2 ^ 53 ∧ (doublings n = 0 ∨ 2 ^ 52 ≤ n / 2 ^ doublings n) := by
  unfold doublings
  by_cases hlog : Nat.log2 n ≤ 52
  · have hlt : n < 2 ^ 53 := Nat.lt_of_lt_of_le (Nat.lt_log2_self)
      (Nat.pow_le_pow_right (by decide) (by omega))
    have hzero : Nat.log2 n - 52 = 0 := by omega
    rw [hzero, Nat.pow_zero, Nat.div_one]
    exact ⟨hlt, Or.inl rfl⟩
  · have hne : n ≠ 0 := by
      intro heq
      subst heq
      simp at hlog
    constructor
    · rw [Nat.div_lt_iff_lt_mul (Nat.two_pow_pos _), ← Nat.pow_add]
      exact Nat.lt_of_lt_of_le (Nat.lt_log2_self) (Nat.pow_le_pow_right (by decide) (by omega))
    · right
      rw [Nat.le_div_iff_mul_le (Nat.two_pow_pos _), ← Nat.pow_add]
      exact Nat.le_trans (Nat.pow_le_pow_right (by decide) (by omega)) (Nat.log2_self_le hne)

/-- The steps of a binade lie evenly spaced. -/
theorem value_steps (doublings steps : Nat) (hlow : doublings = 0 ∨ 2 ^ 52 ≤ steps)
    (hhigh : steps ≤ 2 ^ 53) :
    value (doublings * 2 ^ 52 + steps) = steps * (2 ^ doublings / 2 ^ 1074) := by
  rw [value, units_steps hlow hhigh, Nat.cast_mul, Nat.cast_pow, Nat.cast_ofNat, mul_div_assoc]

theorem value_infinity : value infinity = 2 ^ 1024 := by
  have hsteps := value_steps 2046 (2 ^ 52) (Or.inr (Nat.le_refl _)) (by decide)
  rw [show infinity = 2046 * 2 ^ 52 + 2 ^ 52 from rfl, hsteps, ← mul_div_assoc,
    div_eq_iff (by positivity), Nat.cast_pow, Nat.cast_ofNat, ← pow_add, ← pow_add]

/-- Where the magnitudes from `base` on lie evenly spaced, the nearest one to a
number of steps is the nearest whole number of steps. -/
theorem nearest_roundHalfEven {base num den : Nat} {step : ℚ} (hden : 0 < den)
    (hstep : 0 < step) (hbase : base % 2 = 0)
    (hlow : value (base + num / den) = (num / den : Nat) * step)
    (hhigh : value (base + num / den + 1) = ((num / den : Nat) + 1) * step) :
    Nearest (num / den * step) (min (base + roundHalfEven num den) infinity) := by
  have hdenq : (0 : ℚ) < den := by exact_mod_cast hden
  have hnum : (num : ℚ) = den * (num / den : Nat) + (num % den : Nat) := by
    exact_mod_cast (Nat.div_add_mod num den).symm
  -- The part of a step above the lower neighbour.
  obtain ⟨part, hpart⟩ : ∃ part : ℚ, part = (num % den : Nat) / den := ⟨_, rfl⟩
  have hpart_nonneg : 0 ≤ part := by rw [hpart]; positivity
  have hpart_lt : part < 1 := by
    rw [hpart, div_lt_one hdenq]
    exact_mod_cast Nat.mod_lt num hden
  have hq : (num : ℚ) / den * step = ((num / den : Nat) + part) * step := by
    rw [hpart, hnum]
    field_simp
  have hbelow : value (base + num / den) ≤ num / den * step := by
    rw [hlow, hq]
    exact mul_le_mul_of_nonneg_right (by linarith) hstep.le
  have habove : num / den * step ≤ value (base + num / den + 1) := by
    rw [hhigh, hq]
    exact mul_le_mul_of_nonneg_right (by linarith) hstep.le
  have hmiddle : value (base + num / den) + value (base + num / den + 1) -
      2 * (num / den * step) = (1 - 2 * part) * step := by
    rw [hlow, hhigh, hq]
    ring
  unfold roundHalfEven
  split_ifs with hless hmore
  · have hhalf : 2 * part < 1 := by
      rw [hpart, ← mul_div_assoc, div_lt_one hdenq]
      exact_mod_cast hless
    have hsign : 0 < (1 - 2 * part) * step := mul_pos (by linarith) hstep
    exact nearest_of_lower hbelow (Or.inl (by linarith))
  · have hhalf : 1 < 2 * part := by
      rw [hpart, ← mul_div_assoc, one_lt_div hdenq]
      exact_mod_cast hmore
    have hsign : (1 - 2 * part) * step < 0 := mul_neg_of_neg_of_pos (by linarith) hstep
    rw [← Nat.add_assoc]
    exact nearest_of_upper hbelow habove (Or.inl (by linarith))
  · have hhalf : 2 * part = 1 := by
      rw [hpart, ← mul_div_assoc, div_eq_one_iff_eq hdenq.ne']
      exact_mod_cast (show 2 * (num % den) = den by omega)
    rw [hhalf, sub_self, zero_mul] at hmiddle
    by_cases heven : num / den % 2 = 0
    · rw [heven, Nat.add_zero]
      exact nearest_of_lower hbelow (Or.inr ⟨by linarith, by omega⟩)
    · rw [show num / den % 2 = 1 by omega, ← Nat.add_assoc]
      exact nearest_of_upper hbelow habove (Or.inr ⟨by linarith, by omega⟩)

/-- A quotient of units rounds to the magnitude that is computed for it. -/
theorem nearest_ofUnits (negative : Bool) (num : Nat) {den : Nat} (hden : 0 < den) :
    Nearest (num / den / 2 ^ 1074) (ofUnits negative num den).magnitude := by
  obtain ⟨hsteps, hlow⟩ := doublings_spec (num / den)
  simp only [ofUnits, nearestMagnitude]
  generalize doublings (num / den) = k at hsteps hlow ⊢
  rw [Nat.div_div_eq_div_mul] at hsteps hlow
  have hlowvalue := value_steps k _ hlow hsteps.le
  have hhighvalue := value_steps k (num / (den * 2 ^ k) + 1) (by omega) hsteps
  rw [← Nat.add_assoc, Nat.cast_add, Nat.cast_one] at hhighvalue
  have hstep : (0 : ℚ) < 2 ^ k / 2 ^ 1074 := by positivity
  have hnearest := nearest_roundHalfEven (Nat.mul_pos hden (Nat.two_pow_pos k)) hstep
    (show k * 2 ^ 52 % 2 = 0 by omega) hlowvalue hhighvalue
  have hscale : (num : ℚ) / (den * 2 ^ k : Nat) * (2 ^ k / 2 ^ 1074) = num / den / 2 ^ 1074 := by
    have hpower : (2 : ℚ) ^ k ≠ 0 := by positivity
    rw [Nat.cast_mul, Nat.cast_pow, Nat.cast_ofNat, ← div_div, ← mul_div_assoc,
      div_mul_cancel₀ _ hpower]
  rwa [hscale] at hnearest

theorem cast_unitsInOne : ((unitsInOne : Nat) : ℚ) = 2 ^ 1074 := by
  delta unitsInOne
  -- For any number of bits, so that the power is never written out.
  generalize 1074 = bits
  exact Nat.cast_pow 2 bits

/-- A quotient of whole numbers rounds to the magnitude that is computed for it
in units. -/
theorem nearest_ofUnits_quotient (negative : Bool) (num : Nat) {den : Nat} (hden : 0 < den) :
    Nearest (num / den) (ofUnits negative (num * unitsInOne) den).magnitude := by
  have hscale : ((num * unitsInOne : Nat) : ℚ) / den / 2 ^ 1074 = num / den := by
    rw [Nat.cast_mul, cast_unitsInOne, div_right_comm, mul_div_assoc, div_self (by positivity),
      mul_one]
  rw [← hscale]
  exact nearest_ofUnits negative (num * unitsInOne) hden

end Binary64

namespace Decimal

open Binary64

/-! ## Decimals -/

/-- The value of a decimal without its sign. -/
def value (d : Decimal) : ℚ :=
  d.coefficient * 10 ^ d.exponent

theorem value_nonneg (d : Decimal) : 0 ≤ d.value :=
  mul_nonneg (Nat.cast_nonneg _) (zpow_nonneg (by norm_num) _)

/-- Ten is more than eight: a number that is short in bits stays below a power
of ten, also with some more bits behind it. -/
theorem mul_two_pow_lt_ten_pow {n bits places : Nat}
    (h : Nat.log2 n + 1 + bits ≤ 3 * places) : n * 2 ^ bits < 10 ^ places := by
  calc n * 2 ^ bits
      < 2 ^ (Nat.log2 n + 1) * 2 ^ bits :=
        (Nat.mul_lt_mul_right (Nat.two_pow_pos bits)).mpr Nat.lt_log2_self
    _ = 2 ^ (Nat.log2 n + 1 + bits) := by rw [← Nat.pow_add]
    _ ≤ 2 ^ (3 * places) := Nat.pow_le_pow_right (by decide) h
    _ = 8 ^ places := by rw [Nat.pow_mul]
    _ ≤ 10 ^ places := Nat.pow_le_pow_left (by decide) places

/-- A decimal that is said to vanish lies below half the smallest value. -/
theorem lt_of_vanishes {d : Decimal} (h : d.vanishes = true) : 2 * d.value < 1 / 2 ^ 1074 := by
  obtain ⟨negative, coefficient, exponent⟩ := d
  simp only [vanishes, decide_eq_true_eq] at h
  obtain ⟨places, rfl⟩ : ∃ places : Nat, exponent = -places := ⟨exponent.natAbs, by omega⟩
  have hbound : coefficient * 2 ^ 1075 < 10 ^ places := mul_two_pow_lt_ten_pow (by omega)
  have hboundq : (coefficient : ℚ) * (2 * 2 ^ 1074) < 10 ^ places := by
    have hcast : ((coefficient * 2 ^ 1075 : Nat) : ℚ) < (10 ^ places : Nat) :=
      Nat.cast_lt.mpr hbound
    rwa [Nat.cast_mul, Nat.cast_pow, Nat.cast_pow, Nat.cast_ofNat, Nat.cast_ofNat,
      pow_succ'] at hcast
  simp only [value, zpow_neg, zpow_natCast]
  rw [← div_eq_mul_inv, ← mul_div_assoc, div_lt_div_iff₀ (by positivity) (by positivity), one_mul,
    mul_comm 2, mul_assoc]
  exact hboundq

/-- From the exponent on that is called infinite nothing but zero is finite. -/
theorem le_of_leastInfiniteExponent_le {d : Decimal} (hcoefficient : d.coefficient ≠ 0)
    (h : leastInfiniteExponent ≤ d.exponent) : Binary64.value infinity ≤ d.value := by
  obtain ⟨negative, coefficient, exponent⟩ := d
  have hone : (1 : ℚ) ≤ coefficient := by
    exact_mod_cast Nat.one_le_iff_ne_zero.mpr hcoefficient
  have hpower : (2 : ℚ) ^ 1024 ≤ 10 ^ 309 := by
    exact_mod_cast (show 2 ^ 1024 ≤ 10 ^ 309 by decide +kernel)
  calc Binary64.value infinity = 2 ^ 1024 := value_infinity
    _ ≤ 10 ^ 309 := hpower
    _ = 10 ^ leastInfiniteExponent := (zpow_natCast 10 309).symm
    _ ≤ 10 ^ exponent := zpow_le_zpow_right₀ (by norm_num) h
    _ ≤ coefficient * 10 ^ exponent := le_mul_of_one_le_left (zpow_nonneg (by norm_num) _) hone

/-- The double of a decimal is the one its value rounds to. -/
theorem nearest_toBinary64 (d : Decimal) : Nearest d.value d.toBinary64.magnitude := by
  unfold toBinary64
  split_ifs with hzero hinfinite
  · have hsmall : 2 * d.value < Binary64.value 0 + Binary64.value (0 + 1) := by
      have hone : Binary64.value (0 + 1) = 1 / 2 ^ 1074 := by
        rw [Binary64.value, units_of_lt (by decide), Nat.zero_add, Nat.cast_one]
      rw [hone, value_zero, zero_add]
      rcases hzero with hcoefficient | hvanishes
      · rw [value, hcoefficient, Nat.cast_zero, zero_mul, mul_zero]
        positivity
      · exact lt_of_vanishes hvanishes
    exact nearest_of_lower (by rw [value_zero]; exact d.value_nonneg) (Or.inl hsmall)
  · exact nearest_infinity (le_of_leastInfiniteExponent_le (by tauto) hinfinite)
  · obtain ⟨negative, coefficient, exponent⟩ := d
    cases exponent with
    | ofNat e =>
        have hvalue : ((coefficient * 10 ^ e : Nat) : ℚ) / (1 : Nat) =
            value ⟨negative, coefficient, .ofNat e⟩ := by
          simp [value]
        rw [← hvalue]
        exact nearest_ofUnits_quotient negative (coefficient * 10 ^ e) Nat.one_pos
    | negSucc e =>
        have hvalue : (coefficient : ℚ) / (10 ^ (e + 1) : Nat) =
            value ⟨negative, coefficient, .negSucc e⟩ := by
          simp [value, div_eq_mul_inv]
        rw [← hvalue]
        exact nearest_ofUnits_quotient negative coefficient (Nat.pow_pos (by decide))

@[simp] theorem negative_toBinary64 (d : Decimal) : d.toBinary64.negative = d.negative := by
  unfold toBinary64
  split_ifs
  · rfl
  · rfl
  · cases d.exponent <;> rfl

end Decimal

end JsonGrammar
