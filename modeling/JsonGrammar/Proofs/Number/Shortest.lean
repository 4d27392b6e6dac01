import JsonGrammar.Number.Shortest
import JsonGrammar.Proofs.Number.Order
import Mathlib.Data.Nat.Cast.Order.Field

/-!
# The search for the shortest decimal

The search ends on the coarsest grid that has a point with the magnitude
(`coarsest_shortest`).  Four facts make that up.

* The two points that are tried are enough: whatever lies between a point with
  the magnitude and the value itself has the magnitude too
  (`exists_onGrid?`).
* The search ends on the first grid with such a point, if there is one among
  those it tries (`search_spec`).
* The first grid is coarse enough: the powers of ten above it are beyond the
  next magnitude (`not_onGrid_of_coarser`).
* The last one is fine enough: its points are closer together than half the way
  to the magnitude below (`onGrid_of_le`).

How the first grid lies to the value is a comparison of powers of two and of
ten, which is settled once for exponents that are not too large
(`two_zpow_and_ten_zpow`).
-/

namespace JsonGrammar

namespace Binary64

/-! ## The way to the next magnitude -/

theorem nearest_value {magnitude : Nat} (h : magnitude ≤ infinity) :
    Nearest (value magnitude) magnitude := by
  refine ⟨h, fun k _ => ?_, fun k _ hne heq => ?_⟩
  · rw [sub_self, abs_zero]
    exact abs_nonneg _
  · rw [sub_self, abs_zero, abs_eq_zero, sub_eq_zero] at heq
    exact absurd (strictMono_value.injective heq) hne

/-- The magnitude below is at least one of 2^53 equal parts of the value
away. -/
theorem value_succ_le_mul_sub (magnitude : Nat) :
    value (magnitude + 1) ≤ 2 ^ 53 * (value (magnitude + 1) - value magnitude) := by
  obtain ⟨doublings, steps, rfl, hlow, hhigh⟩ := exists_steps magnitude
  have hstep : (0 : ℚ) < 2 ^ doublings / 2 ^ 1074 := by positivity
  have hsteps : ((steps + 1 : Nat) : ℚ) ≤ 2 ^ 53 := by exact_mod_cast hhigh
  rw [Nat.add_assoc, value_steps _ _ hlow hhigh.le, value_steps _ _ (by omega) hhigh]
  have hgap : ((steps + 1 : Nat) : ℚ) * (2 ^ doublings / 2 ^ 1074) -
      steps * (2 ^ doublings / 2 ^ 1074) = 2 ^ doublings / 2 ^ 1074 := by
    rw [← sub_mul, Nat.cast_succ, add_sub_cancel_left, one_mul]
  rw [hgap]
  exact mul_le_mul_of_nonneg_right hsteps hstep.le

/-- The magnitude above is at most twice the value. -/
theorem value_succ_le_two_mul {magnitude : Nat} (hpos : 0 < magnitude) :
    value (magnitude + 1) ≤ 2 * value magnitude := by
  obtain ⟨doublings, steps, rfl, hlow, hhigh⟩ := exists_steps magnitude
  have hstep : (0 : ℚ) < 2 ^ doublings / 2 ^ 1074 := by positivity
  have hsteps : ((steps + 1 : Nat) : ℚ) ≤ 2 * steps := by
    exact_mod_cast (show steps + 1 ≤ 2 * steps by omega)
  rw [Nat.add_assoc, value_steps _ _ hlow hhigh.le, value_steps _ _ (by omega) hhigh, ← mul_assoc]
  exact mul_le_mul_of_nonneg_right hsteps hstep.le

/-- The length of the units in binary gives the value up to a factor of two. -/
theorem value_log2 {magnitude : Nat} (hpos : 0 < magnitude) (hfinite : magnitude < infinity)
    {e : Int} (he : e = (Nat.log2 (units magnitude) : Int) - 1073) :
    e.natAbs ≤ 1073 ∧ (2 : ℚ) ^ e ≤ 2 * value magnitude ∧ value magnitude < 2 ^ e := by
  have hne : units magnitude ≠ 0 := by
    have hlt := units_strictMono hpos
    omega
  have hlow : ((2 ^ Nat.log2 (units magnitude) : Nat) : ℚ) ≤ units magnitude :=
    Nat.cast_le.mpr (Nat.log2_self_le hne)
  have hhigh : (units magnitude : ℚ) < (2 ^ (Nat.log2 (units magnitude) + 1) : Nat) :=
    Nat.cast_lt.mpr Nat.lt_log2_self
  generalize Nat.log2 (units magnitude) = log at he hlow hhigh
  have hscale : (2 : ℚ) ^ e = 2 ^ (log + 1) / 2 ^ 1074 := by
    rw [he, show (log : Int) - 1073 = ((log + 1 : Nat) : Int) - (1074 : Nat) by omega,
      zpow_sub₀ (by norm_num), zpow_natCast, zpow_natCast]
  have hbelow : (2 : ℚ) ^ e ≤ 2 * value magnitude := by
    rw [hscale, pow_succ', value, ← mul_div_assoc]
    push_cast at hlow
    gcongr
  have habove : value magnitude < 2 ^ e := by
    rw [hscale, value]
    push_cast at hhigh
    gcongr
  refine ⟨?_, hbelow, habove⟩
  have hlast : (2 : ℚ) ^ e < 2 ^ ((1024 + 1 : Nat) : Int) := by
    have hlt := strictMono_value hfinite
    rw [value_infinity] at hlt
    rw [zpow_natCast, pow_succ']
    exact hbelow.trans_lt (mul_lt_mul_of_pos_left hlt (by norm_num))
  have hexponent := (zpow_lt_zpow_iff_right₀ (by norm_num)).mp hlast
  omega

end Binary64

/-! ## Powers of two and of ten -/

/-- Powers of two numbers, of which one is at most twice the other, differ at
most by a power of two. -/
theorem zpow_le_zpow_mul {a b : ℚ} (ha : 0 < a) (hab : a ≤ b) (hba : b ≤ 2 * a) {most : Nat}
    {e : Int} (he : e.natAbs ≤ most) :
    a ^ e ≤ 2 ^ most * b ^ e ∧ b ^ e ≤ 2 ^ most * a ^ e := by
  have hb : 0 < b := ha.trans_le hab
  have hone : (1 : ℚ) ≤ 2 ^ most := one_le_pow₀ (by norm_num)
  have hnat : ∀ n ≤ most, a ^ n ≤ b ^ n ∧ b ^ n ≤ 2 ^ most * a ^ n := by
    intro n hn
    refine ⟨pow_le_pow_left₀ ha.le hab n, ?_⟩
    calc b ^ n ≤ (2 * a) ^ n := pow_le_pow_left₀ hb.le hba n
      _ = 2 ^ n * a ^ n := mul_pow 2 a n
      _ ≤ 2 ^ most * a ^ n :=
          mul_le_mul_of_nonneg_right (pow_le_pow_right₀ (by norm_num) hn) (by positivity)
  obtain ⟨n, rfl | rfl⟩ := e.eq_nat_or_neg
  · obtain ⟨hlow, hhigh⟩ := hnat n (by omega)
    rw [zpow_natCast, zpow_natCast]
    exact ⟨hlow.trans (le_mul_of_one_le_left (by positivity) hone), hhigh⟩
  · obtain ⟨hlow, hhigh⟩ := hnat n (by omega)
    rw [zpow_neg, zpow_neg, zpow_natCast, zpow_natCast]
    constructor
    · rwa [← div_eq_mul_inv, le_div_iff₀ (by positivity), inv_mul_le_iff₀ (by positivity),
        mul_comm]
    · have hinv : (b ^ n)⁻¹ ≤ (a ^ n)⁻¹ := inv_anti₀ (by positivity) hlow
      exact hinv.trans (le_mul_of_one_le_left (by positivity) hone)

/-- An exponent of two times a fraction near the logarithm of two, rounded down,
is an exponent of ten for a power near to that of two. -/
theorem two_zpow_and_ten_zpow {num den : Nat} (hden : den ≠ 0)
    (hlow : (2 : ℚ) ^ den ≤ 10 ^ num) (hhigh : (10 : ℚ) ^ num ≤ 2 * 2 ^ den) {e f : Int}
    (he : e.natAbs ≤ den) (hf : den * f ≤ num * e) (hf' : num * e ≤ den * (f + 1)) :
    (2 : ℚ) ^ e ≤ 2 * 10 ^ (f + 1) ∧ (10 : ℚ) ^ f ≤ 2 * 2 ^ e := by
  obtain ⟨htwo, hten⟩ := zpow_le_zpow_mul (by positivity) hlow hhigh he
  have hunder : ∀ (base : ℚ) (n : Nat), (base ^ n) ^ e = base ^ ((n : Int) * e) := by
    intro base n
    rw [zpow_mul, zpow_natCast]
  rw [hunder, hunder] at htwo hten
  -- The powers are compared after raising them to `den`.
  have hraise : ∀ (base : ℚ) (k : Int), (base ^ k) ^ den = base ^ ((den : Int) * k) := by
    intro base k
    rw [← zpow_natCast, ← zpow_mul, mul_comm]
  constructor
  · have hpow : ((2 : ℚ) ^ e) ^ den ≤ (2 * 10 ^ (f + 1)) ^ den := by
      rw [mul_pow, hraise, hraise]
      exact htwo.trans (mul_le_mul_of_nonneg_left (zpow_le_zpow_right₀ (by norm_num) hf')
        (by positivity))
    exact (pow_le_pow_iff_left₀ (zpow_nonneg (by norm_num) e)
      (mul_nonneg (by norm_num) (zpow_nonneg (by norm_num) _)) hden).mp hpow
  · have hpow : ((10 : ℚ) ^ f) ^ den ≤ (2 * 2 ^ e) ^ den := by
      rw [mul_pow, hraise, hraise]
      exact (zpow_le_zpow_right₀ (by norm_num) hf).trans hten
    exact (pow_le_pow_iff_left₀ (zpow_nonneg (by norm_num) f)
      (mul_nonneg (by norm_num) (zpow_nonneg (by norm_num) e)) hden).mp hpow

/-! ## Grids -/

namespace Decimal

open Binary64

variable {magnitude : Nat} {grid : Int}

/-- A multiple of `10 ^ grid` has the magnitude. -/
def OnGrid (magnitude : Nat) (grid : Int) : Prop :=
  ∃ multiple : Nat, Nearest (multiple * 10 ^ grid) magnitude

theorem readsBack_iff {multiple : Nat} :
    readsBack magnitude grid multiple = true ↔ Nearest (multiple * 10 ^ grid) magnitude := by
  have hnearest := nearest_toBinary64 ⟨false, multiple, grid⟩
  constructor
  · intro h
    rw [beq_iff_eq.mp h] at hnearest
    exact hnearest
  · intro h
    exact beq_iff_eq.mpr (hnearest.unique h)

/-- What is found on a grid reads back. -/
theorem nearest_of_onGrid? {multiple : Nat} (h : onGrid? magnitude grid = some multiple) :
    Nearest (multiple * 10 ^ grid) magnitude := by
  refine readsBack_iff.mp ?_
  unfold onGrid? at h
  simp only at h
  split at h
  · rename_i hbelow habove
    rw [← Option.some.inj h]
    split
    · exact hbelow
    · exact habove
  · rename_i hbelow _
    rwa [← Option.some.inj h]
  · rename_i _ habove
    rwa [← Option.some.inj h]
  · simp at h

theorem scaled_pos (magnitude : Nat) (grid : Int) : 0 < (scaled magnitude grid).2 := by
  have hunits : 0 < unitsInOne := by decide +kernel
  cases grid with
  | ofNat e =>
      have hpower : 0 < Nat.pow 10 e := Nat.pow_pos (by decide)
      simpa only [scaled] using Nat.mul_pos hunits hpower
  | negSucc e => simpa only [scaled] using hunits

theorem scaled_value (magnitude : Nat) (grid : Int) :
    ((scaled magnitude grid).1 : ℚ) / (scaled magnitude grid).2 =
      Binary64.value magnitude / 10 ^ grid := by
  cases grid with
  | ofNat e =>
      simp only [scaled, Binary64.value, Nat.cast_mul, Nat.pow_eq, Nat.cast_pow, Nat.cast_ofNat,
        Int.ofNat_eq_natCast, zpow_natCast]
      rw [div_div]
  | negSucc e =>
      simp only [scaled, Binary64.value, Nat.cast_mul, Nat.pow_eq, Nat.cast_pow, Nat.cast_ofNat,
        zpow_negSucc]
      rw [div_inv_eq_mul, div_mul_eq_mul_div]

/-- The lower one of the two points that are tried is the last one up to the
value. -/
theorem point_le_value (magnitude : Nat) (grid : Int) :
    (((scaled magnitude grid).1 / (scaled magnitude grid).2 : Nat) : ℚ) * 10 ^ grid ≤
        Binary64.value magnitude ∧
      Binary64.value magnitude <
        (((scaled magnitude grid).1 / (scaled magnitude grid).2 + 1 : Nat) : ℚ) * 10 ^ grid := by
  have hden := scaled_pos magnitude grid
  have hpower : (0 : ℚ) < 10 ^ grid := zpow_pos (by norm_num) grid
  rw [← le_div_iff₀ hpower, ← div_lt_iff₀ hpower, ← scaled_value]
  refine ⟨Nat.cast_div_le, ?_⟩
  rw [div_lt_iff₀ (Nat.cast_pos.mpr hden), ← Nat.cast_mul, Nat.cast_lt, Nat.mul_comm]
  exact Nat.lt_mul_div_succ _ hden

/-- If any point of a grid has the magnitude, one is found. -/
theorem exists_onGrid? (hfinite : magnitude ≤ infinity) (h : OnGrid magnitude grid) :
    ∃ multiple, onGrid? magnitude grid = some multiple := by
  obtain ⟨multiple, hmultiple⟩ := h
  obtain ⟨hbelow, habove⟩ := point_le_value magnitude grid
  have hpower : (0 : ℚ) ≤ 10 ^ grid := (zpow_pos (by norm_num) grid).le
  have hmono : ∀ {k l : Nat}, k ≤ l → (k : ℚ) * 10 ^ grid ≤ l * 10 ^ grid :=
    fun hkl => mul_le_mul_of_nonneg_right (Nat.cast_le.mpr hkl) hpower
  have hround : ∀ k : Nat, ∃ m, Nearest (k * 10 ^ grid) m :=
    fun k => ⟨_, nearest_toBinary64 ⟨false, k, grid⟩⟩
  unfold onGrid?
  simp only
  generalize (scaled magnitude grid).1 / (scaled magnitude grid).2 = below at hbelow habove ⊢
  have htried : readsBack magnitude grid below = true ∨
      readsBack magnitude grid (below + 1) = true := by
    rcases Nat.lt_or_ge below multiple with hlt | hge
    · obtain ⟨m, hm⟩ := hround (below + 1)
      obtain rfl := (nearest_value hfinite).of_between hmultiple hm habove.le (hmono hlt)
      exact Or.inr (readsBack_iff.mpr hm)
    · obtain ⟨m, hm⟩ := hround below
      obtain rfl := hmultiple.of_between (nearest_value hfinite) hm (hmono hge) hbelow
      exact Or.inl (readsBack_iff.mpr hm)
  split
  · exact ⟨_, rfl⟩
  · exact ⟨_, rfl⟩
  · exact ⟨_, rfl⟩
  · rename_i hlower hupper
    rw [hlower, hupper] at htried
    simp at htried

/-! ## The first grid and the last one -/

/-- The first grid lies above the value, but not far. -/
theorem coarsestGrid_spec (hpos : 0 < magnitude) (hfinite : magnitude < infinity) :
    Binary64.value magnitude < 2 * 10 ^ coarsestGrid magnitude ∧
      (10 : ℚ) ^ coarsestGrid magnitude ≤ 40 * Binary64.value magnitude := by
  obtain ⟨e, he⟩ : ∃ e : Int, e = (Nat.log2 (units magnitude) : Int) - 1073 := ⟨_, rfl⟩
  obtain ⟨f, hf⟩ : ∃ f : Int, f = (e * 30103).fdiv 100000 := ⟨_, rfl⟩
  have hgrid : coarsestGrid magnitude = f + 1 := by
    rw [coarsestGrid, ← he, ← hf]
  obtain ⟨hsmall, hbelow, habove⟩ := value_log2 hpos hfinite he
  have hlow : (2 : ℚ) ^ 100000 ≤ 10 ^ 30103 := by
    exact_mod_cast (show 2 ^ 100000 ≤ 10 ^ 30103 by decide +kernel)
  have hhigh : (10 : ℚ) ^ 30103 ≤ 2 * 2 ^ 100000 := by
    exact_mod_cast (show 10 ^ 30103 ≤ 2 * 2 ^ 100000 by decide +kernel)
  rw [Int.fdiv_eq_ediv_of_nonneg _ (by decide)] at hf
  obtain ⟨htwo, hten⟩ := two_zpow_and_ten_zpow (e := e) (f := f) (by decide) hlow hhigh
    (by omega) (by omega) (by omega)
  rw [hgrid]
  refine ⟨habove.trans_le htwo, ?_⟩
  rw [zpow_add_one₀ (by norm_num)]
  linarith

/-- Above the first grid no point has the magnitude: all but zero are beyond
the next one. -/
theorem not_onGrid_of_coarser (hpos : 0 < magnitude) (hfinite : magnitude < infinity)
    (hcoarser : coarsestGrid magnitude < grid) : ¬ OnGrid magnitude grid := by
  rintro ⟨multiple, h⟩
  obtain ⟨hvalue, -⟩ := coarsestGrid_spec hpos hfinite
  have hne : multiple ≠ 0 := by
    rintro rfl
    rw [Nat.cast_zero, zero_mul, ← value_zero] at h
    exact hpos.ne (nearest_value (Nat.zero_le _) |>.unique h)
  have hone : (1 : ℚ) ≤ multiple := Nat.one_le_cast.mpr (Nat.one_le_iff_ne_zero.mpr hne)
  have hbeyond : Binary64.value (magnitude + 1) ≤ multiple * 10 ^ grid := by
    calc Binary64.value (magnitude + 1) ≤ 2 * Binary64.value magnitude :=
          value_succ_le_two_mul hpos
      _ ≤ 10 * 10 ^ coarsestGrid magnitude := by linarith [Binary64.value_nonneg magnitude]
      _ = 10 ^ (coarsestGrid magnitude + 1) := by
          rw [zpow_add_one₀ (by norm_num), mul_comm]
      _ ≤ 10 ^ grid := zpow_le_zpow_right₀ (by norm_num) hcoarser
      _ ≤ multiple * 10 ^ grid := le_mul_of_one_le_left (zpow_nonneg (by norm_num) _) hone
  have hle := (nearest_value hfinite).mono h hbeyond
  omega

/-- A grid that is fine enough has a point with the magnitude, the last one up
to the value. -/
theorem onGrid_of_le (hpos : 0 < magnitude) (hfinite : magnitude ≤ infinity)
    (hfine : 2 ^ 54 * 10 ^ grid ≤ Binary64.value magnitude) : OnGrid magnitude grid := by
  obtain ⟨lower, rfl⟩ := Nat.exists_eq_succ_of_ne_zero hpos.ne'
  obtain ⟨hbelow, habove⟩ := point_le_value (lower + 1) grid
  generalize (scaled (lower + 1) grid).1 / (scaled (lower + 1) grid).2 = point at hbelow habove
  have hgap := value_succ_le_mul_sub lower
  have hpower : (0 : ℚ) < 10 ^ grid := zpow_pos (by norm_num) grid
  rw [Nat.cast_succ, add_mul, one_mul] at habove
  have hmiddle : Binary64.value lower + Binary64.value (lower + 1) < 2 * (point * 10 ^ grid) := by
    linarith
  have hnearest := nearest_of_upper (by linarith) hbelow (Or.inl hmiddle)
  rw [Nat.min_eq_left hfinite] at hnearest
  exact ⟨point, hnearest⟩

/-! ## The search -/

/-- A multiple of a power of ten with the magnitude, where no point of a
coarser grid has it. -/
structure Coarsest (magnitude multiple : Nat) (grid : Int) : Prop where
  nearest : Nearest (multiple * 10 ^ grid) magnitude
  not_coarser : ∀ coarser, grid < coarser → ¬ OnGrid magnitude coarser

/-- A search that reaches a grid with a point of the magnitude ends on the
first such grid. -/
theorem search_spec (hfinite : magnitude ≤ infinity) {last : Int} (hlast : OnGrid magnitude last)
    (tries : Nat) (grid : Int) (hle : last ≤ grid) (htries : grid - last < tries) :
    Nearest ((search magnitude tries grid).1 * 10 ^ (search magnitude tries grid).2) magnitude ∧
      ∀ coarser, (search magnitude tries grid).2 < coarser → coarser ≤ grid →
        ¬ OnGrid magnitude coarser := by
  induction tries generalizing grid with
  | zero => omega
  | succ tries ih =>
      rw [search]
      split
      · rename_i multiple hfound
        refine ⟨nearest_of_onGrid? hfound, fun coarser hlt hle => ?_⟩
        exact absurd hlt (by simpa using hle)
      · rename_i hnone
        have hempty : ¬ OnGrid magnitude grid := by
          intro hon
          obtain ⟨multiple, hfound⟩ := exists_onGrid? hfinite hon
          rw [hnone] at hfound
          exact absurd hfound (by simp)
        have hne : last ≠ grid := by
          rintro rfl
          exact hempty hlast
        obtain ⟨hnearest, hcoarser⟩ := ih (grid - 1) (by omega) (by omega)
        refine ⟨hnearest, fun coarser hlt hle => ?_⟩
        rcases hle.lt_or_eq with hbelow | rfl
        · exact hcoarser coarser hlt (by omega)
        · exact hempty

/-- The shortest decimal lies on the coarsest grid that has one with the
magnitude. -/
theorem coarsest_shortest (hpos : 0 < magnitude) (hfinite : magnitude < infinity) :
    Coarsest magnitude (shortest magnitude).1 (shortest magnitude).2 := by
  obtain ⟨-, hgrid⟩ := coarsestGrid_spec hpos hfinite
  have hlast : OnGrid magnitude (coarsestGrid magnitude - (19 : Nat)) := by
    refine onGrid_of_le hpos hfinite.le ?_
    rw [zpow_sub₀ (by norm_num), zpow_natCast, ← mul_div_assoc, div_le_iff₀ (by positivity)]
    linarith [Binary64.value_nonneg magnitude]
  obtain ⟨hnearest, hcoarser⟩ := search_spec hfinite.le hlast 20 (coarsestGrid magnitude)
    (by omega) (by omega)
  refine ⟨hnearest, fun coarser hlt => ?_⟩
  rcases le_or_gt coarser (coarsestGrid magnitude) with hle | hgt
  · exact hcoarser coarser hlt hle
  · exact not_onGrid_of_coarser hpos hfinite hgt

end Decimal

end JsonGrammar
