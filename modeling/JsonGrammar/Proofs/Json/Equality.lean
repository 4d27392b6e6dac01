import JsonGrammar.Proofs.Json.Display

/-!
# Equal values

Two doubles are equal as numbers when they are the same double once both zeros
are written alike, and that double is no NaN (`Binary64.equals_iff`).  An
induction over two values at a time says the same of values
(`Json.equals_iff`): equality is sameness up to the signs of zeros, among the
values without a NaN.  So it is symmetric and transitive whatever the numbers
are, and a value equals itself unless there is a NaN in it.

Sameness of finite values is sameness of what is printed for them, and so
equality can be read off the printed texts (`Json.equals_iff_display`).
-/

namespace JsonGrammar

namespace Binary64

/-- Zero without its sign, and every other number as it is. -/
def withPlainZero (x : Binary64) : Binary64 :=
  if x = zero true then zero false else x

theorem isZero_iff {x : Binary64} : x.isZero = true ↔ x.withPlainZero = zero false := by
  obtain ⟨negative, magnitude, hlt⟩ := x
  cases negative <;> simp [isZero, withPlainZero, zero]

@[simp] theorem magnitude_withPlainZero (x : Binary64) :
    x.withPlainZero.magnitude = x.magnitude := by
  unfold withPlainZero
  split_ifs with hzero
  · rw [hzero]
    rfl
  · rfl

theorem isNaN_withPlainZero (x : Binary64) : x.withPlainZero.isNaN = x.isNaN := by
  simp [isNaN]

theorem isFinite_withPlainZero (x : Binary64) : x.withPlainZero.isFinite = x.isFinite := by
  simp [isFinite]

/-- Of two numbers written alike only zeros can be told apart. -/
theorem withPlainZero_eq_iff {x y : Binary64} :
    x.withPlainZero = y.withPlainZero ↔ x = y ∨ x.isZero = true ∧ y.isZero = true := by
  constructor
  · intro h
    by_cases hx : x = zero true
    · have hzero : x.isZero = true := by
        rw [hx]
        rfl
      exact Or.inr ⟨hzero, isZero_iff.mpr (h ▸ isZero_iff.mp hzero)⟩
    · by_cases hy : y = zero true
      · have hzero : y.isZero = true := by
          rw [hy]
          rfl
        exact Or.inr ⟨isZero_iff.mpr (h ▸ isZero_iff.mp hzero), hzero⟩
      · left
        rwa [withPlainZero, withPlainZero, if_neg hx, if_neg hy] at h
  · intro h
    rcases h with rfl | ⟨hx, hy⟩
    · rfl
    · rw [isZero_iff.mp hx, isZero_iff.mp hy]

theorem equals_iff {x y : Binary64} :
    x.equals y = true ↔
      x.withPlainZero = y.withPlainZero ∧ x.withPlainZero.isNaN = false := by
  have hsame : x.withPlainZero = y.withPlainZero → x.isNaN = y.isNaN := by
    intro h
    rw [← isNaN_withPlainZero x, h, isNaN_withPlainZero]
  rw [isNaN_withPlainZero, equals]
  simp only [Bool.and_eq_true, Bool.not_eq_true', Bool.or_eq_true, decide_eq_true_eq,
    ← withPlainZero_eq_iff]
  constructor
  · intro h
    exact ⟨h.2, h.1.1⟩
  · intro h
    exact ⟨⟨h.2, hsame h.1 ▸ h.2⟩, h.1⟩

theorem isNaN_of_isFinite {x : Binary64} (h : x.isFinite = true) : x.isNaN = false := by
  have hlt : x.magnitude < infinity := of_decide_eq_true h
  exact decide_eq_false (by omega)

end Binary64

namespace Json

/-! ## The numbers in a value -/

mutual

/-- All numbers in a value, at any depth. -/
def numbers : Json → List Binary64
  | number x => [x]
  | array items => itemsNumbers items
  | object members => membersNumbers members
  | _ => []

/-- All numbers in the items. -/
def itemsNumbers : List Json → List Binary64
  | [] => []
  | item :: items => item.numbers ++ itemsNumbers items

/-- All numbers in the values of the members. -/
def membersNumbers : List (String × Json) → List Binary64
  | [] => []
  | (_, value) :: members => value.numbers ++ membersNumbers members

end

mutual

/-- The value with each of its numbers changed. -/
def mapNumbers (f : Binary64 → Binary64) : Json → Json
  | number x => number (f x)
  | array items => array (mapItems f items)
  | object members => object (mapMembers f members)
  | v => v

/-- The items with each of their numbers changed. -/
def mapItems (f : Binary64 → Binary64) : List Json → List Json
  | [] => []
  | item :: items => item.mapNumbers f :: mapItems f items

/-- The members with each number of their values changed and their keys kept. -/
def mapMembers (f : Binary64 → Binary64) : List (String × Json) → List (String × Json)
  | [] => []
  | (key, value) :: members => (key, value.mapNumbers f) :: mapMembers f members

end

/-- The value with all its zeros written alike. -/
def withPlainZeros (v : Json) : Json :=
  v.mapNumbers Binary64.withPlainZero

mutual

theorem numbers_mapNumbers (f : Binary64 → Binary64) : ∀ v : Json,
    (v.mapNumbers f).numbers = v.numbers.map f
  | null => rfl
  | bool _ => rfl
  | number _ => rfl
  | string _ => rfl
  | array items => itemsNumbers_mapItems f items
  | object members => membersNumbers_mapMembers f members

theorem itemsNumbers_mapItems (f : Binary64 → Binary64) : ∀ items : List Json,
    itemsNumbers (mapItems f items) = (itemsNumbers items).map f
  | [] => rfl
  | item :: items => by
      rw [mapItems, itemsNumbers, itemsNumbers, List.map_append, numbers_mapNumbers f item,
        itemsNumbers_mapItems f items]

theorem membersNumbers_mapMembers (f : Binary64 → Binary64) : ∀ members : List (String × Json),
    membersNumbers (mapMembers f members) = (membersNumbers members).map f
  | [] => rfl
  | (_, value) :: members => by
      rw [mapMembers, membersNumbers, membersNumbers, List.map_append, numbers_mapNumbers f value,
        membersNumbers_mapMembers f members]

end

mutual

theorem isFinite_iff : ∀ v : Json, v.isFinite = true ↔ ∀ x ∈ v.numbers, x.isFinite = true
  | null => by simp [isFinite, numbers]
  | bool _ => by simp [isFinite, numbers]
  | number _ => by simp [isFinite, numbers]
  | string _ => by simp [isFinite, numbers]
  | array items => itemsFinite_iff items
  | object members => membersFinite_iff members

theorem itemsFinite_iff : ∀ items : List Json,
    itemsFinite items = true ↔ ∀ x ∈ itemsNumbers items, x.isFinite = true
  | [] => by simp [itemsFinite, itemsNumbers]
  | item :: items => by
      rw [itemsFinite, itemsNumbers, List.forall_mem_append, Bool.and_eq_true, isFinite_iff item,
        itemsFinite_iff items]

theorem membersFinite_iff : ∀ members : List (String × Json),
    membersFinite members = true ↔ ∀ x ∈ membersNumbers members, x.isFinite = true
  | [] => by simp [membersFinite, membersNumbers]
  | (_, value) :: members => by
      rw [membersFinite, membersNumbers, List.forall_mem_append, Bool.and_eq_true,
        isFinite_iff value, membersFinite_iff members]

end

/-! ## Equality as sameness -/

mutual

/-- Values are equal when they are the same up to the signs of zeros and hold no
NaN. -/
theorem equals_iff : ∀ v w : Json, v.equals w = true ↔
    v.withPlainZeros = w.withPlainZeros ∧ ∀ x ∈ v.withPlainZeros.numbers, x.isNaN = false
  | null, w => by cases w <;> simp [equals, withPlainZeros, mapNumbers, numbers]
  | bool _, w => by cases w <;> simp [equals, withPlainZeros, mapNumbers, numbers]
  | string _, w => by cases w <;> simp [equals, withPlainZeros, mapNumbers, numbers]
  | number x, w => by
      cases w <;> simp [equals, withPlainZeros, mapNumbers, numbers, Binary64.equals_iff]
  | array items, w => by
      cases w with
      | array others =>
          rw [equals, itemsEqual_iff items others, withPlainZeros, withPlainZeros, mapNumbers,
            mapNumbers, array.injEq, numbers]
      | _ => simp [equals, withPlainZeros, mapNumbers]
  | object members, w => by
      cases w with
      | object others =>
          rw [equals, membersEqual_iff members others, withPlainZeros, withPlainZeros, mapNumbers,
            mapNumbers, object.injEq, numbers]
      | _ => simp [equals, withPlainZeros, mapNumbers]

theorem itemsEqual_iff : ∀ items others : List Json, itemsEqual items others = true ↔
    mapItems Binary64.withPlainZero items = mapItems Binary64.withPlainZero others ∧
      ∀ x ∈ itemsNumbers (mapItems Binary64.withPlainZero items), x.isNaN = false
  | [], [] => by simp [itemsEqual, mapItems, itemsNumbers]
  | [], _ :: _ => by simp [itemsEqual, mapItems]
  | _ :: _, [] => by simp [itemsEqual, mapItems]
  | item :: items, other :: others => by
      rw [itemsEqual, mapItems, mapItems, itemsNumbers, List.forall_mem_append, List.cons.injEq,
        Bool.and_eq_true, equals_iff item other, itemsEqual_iff items others, and_and_and_comm]
      rfl

theorem membersEqual_iff : ∀ members others : List (String × Json),
    membersEqual members others = true ↔
      mapMembers Binary64.withPlainZero members = mapMembers Binary64.withPlainZero others ∧
        ∀ x ∈ membersNumbers (mapMembers Binary64.withPlainZero members), x.isNaN = false
  | [], [] => by simp [membersEqual, mapMembers, membersNumbers]
  | [], _ :: _ => by simp [membersEqual, mapMembers]
  | _ :: _, [] => by simp [membersEqual, mapMembers]
  | (key, value) :: members, (key', value') :: others => by
      rw [membersEqual, mapMembers, mapMembers, membersNumbers, List.forall_mem_append,
        List.cons.injEq, Prod.mk.injEq, Bool.and_eq_true, Bool.and_eq_true, beq_iff_eq,
        equals_iff value value', membersEqual_iff members others]
      tauto

end

/-! ## Equality and printing -/

theorem isFinite_withPlainZeros {v : Json} (h : v.isFinite = true) :
    v.withPlainZeros.isFinite = true := by
  rw [isFinite_iff] at h ⊢
  intro x hx
  rw [withPlainZeros, numbers_mapNumbers] at hx
  obtain ⟨y, hy, rfl⟩ := List.mem_map.mp hx
  rw [Binary64.isFinite_withPlainZero]
  exact h y hy

/-- A value is equal to itself unless there is a NaN in it. -/
theorem equals_self_iff {v : Json} :
    v.equals v = true ↔ ∀ x ∈ v.numbers, x.isNaN = false := by
  rw [equals_iff, withPlainZeros, numbers_mapNumbers]
  simp [Binary64.isNaN_withPlainZero]

theorem equals_symm {v w : Json} (h : v.equals w = true) : w.equals v = true := by
  rw [equals_iff] at h ⊢
  obtain ⟨hsame, hnumbers⟩ := h
  exact ⟨hsame.symm, hsame ▸ hnumbers⟩

theorem equals_trans {u v w : Json} (huv : u.equals v = true) (hvw : v.equals w = true) :
    u.equals w = true := by
  rw [equals_iff] at huv hvw ⊢
  exact ⟨huv.1.trans hvw.1, huv.2⟩

/-- Finite values are equal when they print alike with all zeros written
alike. -/
theorem equals_iff_of_isFinite {v w : Json} (hv : v.isFinite = true) (hw : w.isFinite = true) :
    v.equals w = true ↔ v.withPlainZeros.display = w.withPlainZeros.display := by
  have hv' := isFinite_withPlainZeros hv
  have hnumbers : ∀ x ∈ v.withPlainZeros.numbers, x.isNaN = false := by
    intro x hx
    exact Binary64.isNaN_of_isFinite ((isFinite_iff _).mp hv' x hx)
  rw [equals_iff, display_inj hv' (isFinite_withPlainZeros hw)]
  exact and_iff_left hnumbers

/-- Values with finite numbers print alike when they are the same, bit for bit,
and are equal when they print alike with all zeros written alike.  Among all
values, finite or not, equality is symmetric and transitive, and the values that
are equal to themselves are those without a NaN. -/
theorem equals_iff_display :
    (∀ v w : Json, v.isFinite = true → w.isFinite = true →
      (v.display = w.display ↔ v = w) ∧
        (v.equals w = true ↔ v.withPlainZeros.display = w.withPlainZeros.display)) ∧
    (∀ v w : Json, v.equals w = true → w.equals v = true) ∧
    (∀ u v w : Json, u.equals v = true → v.equals w = true → u.equals w = true) ∧
    ∀ v : Json, v.equals v = true ↔ ∀ x ∈ v.numbers, x.isNaN = false := by
  refine ⟨fun v w hv hw => ⟨display_inj hv hw, equals_iff_of_isFinite hv hw⟩, ?_, ?_, ?_⟩
  · intro v w
    exact equals_symm
  · intro u v w
    exact equals_trans
  · intro v
    exact equals_self_iff

/-- The two zeros in an object, and a NaN in an array. -/
theorem equals_iff_display_zeros :
    let v := object [("é", number (Binary64.zero true))]
    let w := object [("é", number (Binary64.zero false))]
    let nan : Binary64 := ⟨false, Binary64.infinity + 1, by decide⟩
    v.isFinite = true ∧ w.isFinite = true ∧ v.display ≠ w.display ∧ v.equals w = true ∧
      w.equals v = true ∧ (array [null, number nan]).equals (array [null, number nan]) = false := by
  intro v w nan
  obtain ⟨hfinite, hsymm, -, hself⟩ := equals_iff_display
  obtain ⟨hdisplay, hequals⟩ := hfinite v w rfl rfl
  have hequal : v.equals w = true := hequals.mpr rfl
  refine ⟨rfl, rfl, ?_, hequal, hsymm v w hequal, ?_⟩
  · intro h
    have hsame := hdisplay.mp h
    simp [v, w, Binary64.zero] at hsame
  · apply Bool.eq_false_iff.mpr
    intro h
    have hnumbers := (hself _).mp h nan (by simp [numbers, itemsNumbers])
    exact absurd hnumbers (by decide)

end Json

end JsonGrammar
