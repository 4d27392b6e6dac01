import JsonGrammar.Proofs.Number.Shortest
import Mathlib.Data.List.DropRight
import Mathlib.Data.Nat.Multiplicity

/-!
# Significant digits

The significant digits of a decimal are the digits of its coefficient without
the zeros at the end, and so are the same for all decimals of one value
(`significant_of_value`).

No decimal of a magnitude has fewer of them than the one on the coarsest grid
(`Coarsest.significant_le`).  One that had fewer would lie below a power of ten
that is no further up than the decimal on the coarsest grid.  That power would
have the magnitude too, and its grid is coarser.
-/

namespace JsonGrammar

namespace Decimal

open Binary64

/-- How many digits the coefficient has, not counting the zeros at its end. -/
def significant (d : Decimal) : Nat :=
  ((Nat.toDigits 10 d.coefficient).rdropWhile (· == '0')).length

/-! ## Zeros at the end -/

theorem digitChar_ne_zero : ∀ n < 10, n ≠ 0 → n.digitChar ≠ '0' := by
  decide

/-- The last digit of a number that is no multiple of ten is not zero. -/
theorem toDigits_eq_concat {n : Nat} (hn : n % 10 ≠ 0) :
    ∃ init last, Nat.toDigits 10 n = init ++ [last] ∧ last ≠ '0' := by
  have hlast := digitChar_ne_zero (n % 10) (Nat.mod_lt n (by decide)) hn
  rcases Nat.lt_or_ge n 10 with hlt | hge
  · refine ⟨[], n.digitChar, Nat.toDigits_of_lt_base hlt, ?_⟩
    rwa [Nat.mod_eq_of_lt hlt] at hlast
  · exact ⟨_, _, Nat.toDigits_of_base_le (by decide) hge, hlast⟩

theorem rdropWhile_toDigits {n : Nat} (hn : n % 10 ≠ 0) (zeros : Nat) :
    (Nat.toDigits 10 (n * 10 ^ zeros)).rdropWhile (· == '0') = Nat.toDigits 10 n := by
  induction zeros with
  | zero =>
      obtain ⟨init, last, hdigits, hlast⟩ := toDigits_eq_concat hn
      rw [Nat.pow_zero, Nat.mul_one, hdigits, List.rdropWhile_concat_neg]
      simpa using hlast
  | succ zeros ih =>
      have hpos : 0 < n * 10 ^ zeros := Nat.mul_pos (by omega) (Nat.pow_pos (by decide))
      have hdigits :=
        Nat.toDigits_append_toDigits (show 1 < 10 by decide) hpos (show 0 < 10 by decide)
      rw [Nat.pow_succ', Nat.mul_left_comm, ← Nat.add_zero (10 * _), ← hdigits, Nat.toDigits_zero,
        List.rdropWhile_concat_pos _ _ _ (by decide)]
      exact ih

/-- Every number but zero is one that does not end in a zero, with zeros behind
it. -/
theorem exists_eq_mul_pow {coefficient : Nat} (hne : coefficient ≠ 0) :
    ∃ n zeros, n % 10 ≠ 0 ∧ coefficient = n * 10 ^ zeros := by
  obtain ⟨zeros, n, hdvd, heq⟩ := Nat.exists_eq_pow_mul_and_not_dvd hne 10 (by decide)
  exact ⟨n, zeros, by omega, by rw [heq, Nat.mul_comm]⟩

theorem cast_mul_pow_mul_zpow (n zeros : Nat) (e : Int) :
    ((n * 10 ^ zeros : Nat) : ℚ) * 10 ^ e = n * 10 ^ ((zeros : Int) + e) := by
  rw [zpow_add₀ (by norm_num), zpow_natCast, Nat.cast_mul, Nat.cast_pow, Nat.cast_ofNat, mul_assoc]

/-- A value is written in one way by digits that do not end in a zero. -/
theorem eq_of_mul_zpow_eq {k n : Nat} {a b : Int} (hk : k % 10 ≠ 0) (hn : n % 10 ≠ 0)
    (h : (k : ℚ) * 10 ^ a = n * 10 ^ b) : k = n := by
  have hcoarser : ∀ {k n : Nat} {a b : Int}, k % 10 ≠ 0 → (k : ℚ) * 10 ^ a = n * 10 ^ b → a ≤ b →
      k = n := by
    intro k n a b hk h hle
    obtain ⟨zeros, rfl⟩ : ∃ zeros : Nat, b = a + zeros := ⟨(b - a).toNat, by omega⟩
    rw [add_comm, ← cast_mul_pow_mul_zpow] at h
    have hnat : k = n * 10 ^ zeros :=
      Nat.cast_injective (mul_right_cancel₀ (zpow_ne_zero a (by norm_num)) h)
    cases zeros with
    | zero => rwa [Nat.pow_zero, Nat.mul_one] at hnat
    | succ zeros =>
        rw [Nat.pow_succ, ← Nat.mul_assoc] at hnat
        omega
  rcases le_total a b with hle | hle
  · exact hcoarser hk h hle
  · exact (hcoarser hn h.symm hle).symm

/-- The significant digits are a matter of the value. -/
theorem significant_of_value {d : Decimal} {n : Nat} {e : Int} (hn : n % 10 ≠ 0)
    (hvalue : d.value = n * 10 ^ e) : d.significant = (Nat.toDigits 10 n).length := by
  obtain ⟨negative, coefficient, exponent⟩ := d
  have hne : coefficient ≠ 0 := by
    rintro rfl
    have hzero : (n : ℚ) * 10 ^ e = 0 := by rw [← hvalue, value, Nat.cast_zero, zero_mul]
    have hn' : n = 0 := by
      exact_mod_cast (mul_eq_zero.mp hzero).resolve_right (zpow_ne_zero e (by norm_num))
    exact hn (by rw [hn'])
  obtain ⟨k, zeros, hk, rfl⟩ := exists_eq_mul_pow hne
  have hsame : (k : ℚ) * 10 ^ ((zeros : Int) + exponent) = n * 10 ^ e := by
    rw [← hvalue, value, cast_mul_pow_mul_zpow]
  rw [significant, rdropWhile_toDigits hk, eq_of_mul_zpow_eq hk hn hsame]

theorem significant_of_value_eq_zero {d : Decimal} (hvalue : d.value = 0) : d.significant = 0 := by
  have hcoefficient : d.coefficient = 0 := by
    exact_mod_cast (mul_eq_zero.mp hvalue).resolve_right (zpow_ne_zero d.exponent (by norm_num))
  rw [significant, hcoefficient]
  rfl

/-! ## The coarsest grid -/

variable {magnitude multiple : Nat} {grid : Int}

/-- On the coarsest grid the digits do not end in a zero. -/
theorem Coarsest.mod_ten_ne_zero (h : Coarsest magnitude multiple grid) : multiple % 10 ≠ 0 := by
  intro hten
  refine h.not_coarser (grid + 1) (by omega) ⟨multiple / 10, ?_⟩
  have hmultiple : (multiple : ℚ) = (multiple / 10 : Nat) * 10 := by
    exact_mod_cast (show multiple = multiple / 10 * 10 by omega)
  have hnearest := h.nearest
  rwa [hmultiple, mul_assoc, ← zpow_one_add₀ (by norm_num), add_comm] at hnearest

theorem Coarsest.not_nearest_zero (h : Coarsest magnitude multiple grid) :
    ¬ Nearest 0 magnitude := by
  intro hzero
  refine h.not_coarser (grid + 1) (by omega) ⟨0, ?_⟩
  rwa [Nat.cast_zero, zero_mul]

/-- A point with the magnitude has at least as many digits as the one on the
coarsest grid. -/
theorem Coarsest.length_toDigits_le (h : Coarsest magnitude multiple grid) {n : Nat} {finer : Int}
    (hn : Nearest (n * 10 ^ finer) magnitude) :
    (Nat.toDigits 10 multiple).length ≤ (Nat.toDigits 10 n).length := by
  have hfiner : finer ≤ grid := by
    by_contra hcoarser
    exact h.not_coarser finer (by omega) ⟨n, hn⟩
  have hpos : 0 < (Nat.toDigits 10 n).length := Nat.length_toDigits_pos
  have hbelow := (Nat.length_toDigits_le_iff (by decide) hpos).mp le_rfl
  rw [Nat.length_toDigits_le_iff (by decide) hpos]
  generalize (Nat.toDigits 10 n).length = count at hpos hbelow ⊢
  by_contra habove
  -- The power of ten between the two points lies on a coarser grid.
  have hpower : ((1 : Nat) : ℚ) * 10 ^ (count + grid) = ((10 ^ count : Nat) : ℚ) * 10 ^ grid := by
    rw [← cast_mul_pow_mul_zpow, Nat.one_mul]
  have hlow : (n : ℚ) * 10 ^ finer ≤ ((1 : Nat) : ℚ) * 10 ^ (count + grid) := by
    rw [hpower]
    exact mul_le_mul (Nat.cast_le.mpr hbelow.le) (zpow_le_zpow_right₀ (by norm_num) hfiner)
      (zpow_nonneg (by norm_num) _) (Nat.cast_nonneg _)
  have hhigh : ((1 : Nat) : ℚ) * 10 ^ (count + grid) ≤ multiple * 10 ^ grid := by
    rw [hpower]
    exact mul_le_mul_of_nonneg_right (Nat.cast_le.mpr (by omega)) (zpow_nonneg (by norm_num) _)
  have hround := nearest_toBinary64 ⟨false, 1, count + grid⟩
  have hmagnitude := hn.of_between h.nearest hround hlow hhigh
  rw [hmagnitude] at hround
  exact h.not_coarser (count + grid) (by omega) ⟨1, hround⟩

/-- No decimal of the magnitude has fewer significant digits than the one on
the coarsest grid. -/
theorem Coarsest.significant_le (h : Coarsest magnitude multiple grid) {d e : Decimal}
    (hd : d.value = multiple * 10 ^ grid) (he : Nearest e.value magnitude) :
    d.significant ≤ e.significant := by
  have hne : e.coefficient ≠ 0 := by
    intro hzero
    rw [value, hzero, Nat.cast_zero, zero_mul] at he
    exact h.not_nearest_zero he
  obtain ⟨n, zeros, hn, hcoefficient⟩ := exists_eq_mul_pow hne
  have hvalue : e.value = n * 10 ^ ((zeros : Int) + e.exponent) := by
    rw [value, hcoefficient, cast_mul_pow_mul_zpow]
  rw [significant_of_value h.mod_ten_ne_zero hd, significant_of_value hn hvalue]
  rw [hvalue] at he
  exact h.length_toDigits_le he

end Decimal

end JsonGrammar
