import JsonGrammar.Rule.Number
import JsonGrammar.Rule.Text
import JsonGrammar.Rule.Word

/-!
# Values and documents

The first character of a value picks its rule, and from there on that rule's
failure is the one reported.  Arrays and objects hold values again, down to a
limit: `valueWithin` counts the levels that may still be opened, and a bracket
that would open one too many is itself the place of the failure.

Each rule for containers takes the parser for the values inside as an
argument, `none` where no level is left, so that the recursion over the levels
is the only one.
-/

namespace JsonGrammar

/-- Bounds on what is read. -/
structure Limits where
  /-- The deepest nesting of arrays and objects; an empty array has depth 1. -/
  maxDepth : Nat := 128
  deriving DecidableEq

namespace Rule

open JsonGrammar.Parser

/-! ## Containers, given the values inside -/

/-- Blanks and a closing bracket. -/
def closedAtOnce (closing : Char) : Parser Unit :=
  whitespace.skipThen (skip (char closing))

/-- What stands behind an opening bracket: nothing, or entries between
commas. -/
def entries {α : Type} (entry : Parser α) (closing : Char) : Parser (List α) :=
  ((closedAtOnce closing).map fun _ => []).orElse
    ((separatedList entry (char ',')).thenSkip (char closing))

/-- An opening bracket, the check against the limit, and what the bracket
holds. -/
def bracketed (opening : Char) (limit : Nat) (content? : Option (Parser Json)) : Parser Json :=
  fun c =>
    (char opening c).andThen fun _ behind =>
      match content? with
      | none => .failed (Failure.raise c (.nestedTooDeep limit))
      | some content => content behind

/-- An array of values that `inner?` reads. -/
def arrayOf (limit : Nat) (inner? : Option (Parser Json)) : Parser Json :=
  bracketed '[' limit (inner?.map fun inner => (entries inner ']').map Json.array)

/-- A key, a colon and a value. -/
def member (inner : Parser Json) : Parser (String × Json) :=
  pair (whitespace.skipThen (stringLiteral.thenSkip (pair whitespace (char ':')))) inner

/-- An object of values that `inner?` reads. -/
def objectOf (limit : Nat) (inner? : Option (Parser Json)) : Parser Json :=
  bracketed '{' limit (inner?.map fun inner => (entries (member inner) '}').map Json.object)

/-- A value without blanks around it, its rule picked by the first
character. -/
def tokenOf (limit : Nat) (inner? : Option (Parser Json)) : Parser Json := fun c =>
  match c.peek? with
  | none => fail (.unexpected (.member "a JSON value") none) c
  | some ch =>
      if ch = '[' then arrayOf limit inner? c
      else if ch = '{' then objectOf limit inner? c
      else if ch = '"' then stringLiteral.map Json.string c
      else if ch = '-' ∨ ch.isDigit then number.map Json.number c
      else if ch = 'n' then null c
      else if ch = 't' ∨ ch = 'f' then boolean c
      else fail (.unexpected (.member "a JSON value") (some ch)) c

/-- A value with blanks around it. -/
def valueOf (limit : Nat) (inner? : Option (Parser Json)) : Parser Json :=
  whitespace.skipThen ((tokenOf limit inner?).thenSkip whitespace)

/-! ## Nesting -/

/-- A value that may open `levels` more levels out of `limit`. -/
def valueWithin (limit : Nat) : Nat → Cursor → Outcome Json
  | 0, c => valueOf limit none c
  | levels + 1, c => valueOf limit (some (valueWithin limit levels)) c

/-- The values inside a container that may open `levels` levels, itself the
first of them. -/
def innerWithin (limit : Nat) : Nat → Option (Parser Json)
  | 0 => none
  | levels + 1 => some (valueWithin limit levels)

theorem valueWithin_eq (limit levels : Nat) :
    valueWithin limit levels = valueOf limit (innerWithin limit levels) := by
  cases levels <;> rfl

/-- What the rule for values hands on from the values inside holds of values
that may open any number of levels. -/
theorem valueWithin_induction {P : Nat → Parser Json → Prop} (limit : Nat)
    (hstep : ∀ levels, (∀ l, levels = l + 1 → P l (valueWithin limit l)) →
      P levels (valueOf limit (innerWithin limit levels))) (levels : Nat) :
    P levels (valueWithin limit levels) := by
  induction levels with
  | zero =>
      rw [valueWithin_eq]
      exact hstep 0 fun l hl => absurd hl (Nat.succ_ne_zero l).symm
  | succ levels ih =>
      rw [valueWithin_eq]
      refine hstep (levels + 1) fun l hl => ?_
      obtain rfl := Nat.succ.inj hl
      exact ih

/-! ## The rules -/

/-- An array; its own brackets are the first level out of the limit. -/
def array (limits : Limits) : Parser Json :=
  arrayOf limits.maxDepth (innerWithin limits.maxDepth limits.maxDepth)

/-- An object; its own brackets are the first level out of the limit. -/
def object (limits : Limits) : Parser Json :=
  objectOf limits.maxDepth (innerWithin limits.maxDepth limits.maxDepth)

/-- Any value, with blanks around it. -/
def value (limits : Limits) : Parser Json :=
  valueWithin limits.maxDepth limits.maxDepth

/-- A value that is the whole input. -/
def document (limits : Limits) : Parser Json :=
  (value limits).thenSkip endOfInput

end Rule

end JsonGrammar
