import JsonGrammar.Number.Binary64

/-!
# JSON values

Decoded values, the ways to look into them, and their comparison.  An object
is the list of its members in the order of the source; a key may come more
than once, and then the last member counts.  Whether two values are the same
can be computed (`Json.decEq`), and it is not the comparison of their numbers
(`Json.equals`).
-/

namespace JsonGrammar

/-- A decoded value.  Numbers are doubles, infinities and NaNs among them,
though no text is read as one of these. -/
inductive Json where
  | null
  | bool (value : Bool)
  | number (value : Binary64)
  | string (text : String)
  | array (items : List Json)
  | object (members : List (String × Json))

namespace Json

/-! ## Looking into a value -/

/-- The value of the last member with a key, in an object. -/
def get? (key : String) : Json → Option Json
  | object members => (members.reverse.find? fun member => member.1 == key).map (·.2)
  | _ => none

/-- The value is `null`. -/
def isNull : Json → Bool
  | null => true
  | _ => false

/-- The truth value, if it is one. -/
def asBool? : Json → Option Bool
  | bool value => some value
  | _ => none

/-- The number, if it is one. -/
def asNumber? : Json → Option Binary64
  | number value => some value
  | _ => none

/-- The decoded text, if it is one. -/
def asString? : Json → Option String
  | string text => some text
  | _ => none

/-- The items, if it is an array. -/
def asArray? : Json → Option (List Json)
  | array items => some items
  | _ => none

/-! ## Nesting -/

mutual

/-- How many arrays and objects stand inside one another. -/
def depth : Json → Nat
  | array items => itemsDepth items + 1
  | object members => membersDepth members + 1
  | _ => 0

/-- The depth of the deepest item. -/
def itemsDepth : List Json → Nat
  | [] => 0
  | item :: items => max item.depth (itemsDepth items)

/-- The depth of the deepest value of a member. -/
def membersDepth : List (String × Json) → Nat
  | [] => 0
  | (_, value) :: members => max value.depth (membersDepth members)

end

/-! ## Sameness -/

mutual

/-- Values are the same where they are built alike from the same texts and the
same doubles, bit for bit. -/
def decEq : (v w : Json) → Decidable (v = w)
  | null, w =>
      match w with
      | null => isTrue rfl
      | bool _ | number _ | string _ | array _ | object _ => isFalse nofun
  | bool x, w =>
      match w with
      | bool y => decidable_of_iff (x = y) (by rw [bool.injEq])
      | null | number _ | string _ | array _ | object _ => isFalse nofun
  | number x, w =>
      match w with
      | number y => decidable_of_iff (x = y) (by rw [number.injEq])
      | null | bool _ | string _ | array _ | object _ => isFalse nofun
  | string x, w =>
      match w with
      | string y => decidable_of_iff (x = y) (by rw [string.injEq])
      | null | bool _ | number _ | array _ | object _ => isFalse nofun
  | array xs, w =>
      match w with
      | array ys =>
          have := itemsDecEq xs ys
          decidable_of_iff (xs = ys) (by rw [array.injEq])
      | null | bool _ | number _ | string _ | object _ => isFalse nofun
  | object xs, w =>
      match w with
      | object ys =>
          have := membersDecEq xs ys
          decidable_of_iff (xs = ys) (by rw [object.injEq])
      | null | bool _ | number _ | string _ | array _ => isFalse nofun

/-- The same items in the same order. -/
def itemsDecEq : (xs ys : List Json) → Decidable (xs = ys)
  | [], [] => isTrue rfl
  | [], _ :: _ => isFalse nofun
  | _ :: _, [] => isFalse nofun
  | x :: xs, y :: ys =>
      have := x.decEq y
      have := itemsDecEq xs ys
      decidable_of_iff (x = y ∧ xs = ys) (by rw [List.cons.injEq])

/-- The same members in the same order. -/
def membersDecEq : (xs ys : List (String × Json)) → Decidable (xs = ys)
  | [], [] => isTrue rfl
  | [], _ :: _ => isFalse nofun
  | _ :: _, [] => isFalse nofun
  | (k, x) :: xs, (l, y) :: ys =>
      have := x.decEq y
      have := membersDecEq xs ys
      decidable_of_iff ((k = l ∧ x = y) ∧ xs = ys) (by rw [List.cons.injEq, Prod.mk.injEq])

end

instance : DecidableEq Json :=
  decEq

/-! ## Comparison -/

mutual

/-- Equal shape, equal texts, and numbers equal as numbers: a value with a NaN
in it differs from itself. -/
def equals : Json → Json → Bool
  | null, null => true
  | bool x, bool y => x == y
  | number x, number y => x.equals y
  | string x, string y => x == y
  | array xs, array ys => itemsEqual xs ys
  | object xs, object ys => membersEqual xs ys
  | _, _ => false

/-- As many items, each equal to the one in its place. -/
def itemsEqual : List Json → List Json → Bool
  | [], [] => true
  | x :: xs, y :: ys => x.equals y && itemsEqual xs ys
  | _, _ => false

/-- As many members, each with the key and the value of the one in its place:
the order counts. -/
def membersEqual : List (String × Json) → List (String × Json) → Bool
  | [], [] => true
  | (k, x) :: xs, (l, y) :: ys => k == l && x.equals y && membersEqual xs ys
  | _, _ => false

end

end Json

end JsonGrammar
