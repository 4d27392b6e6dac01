import JsonGrammar.Parser.Combinators

/-!
# Repetition

Every loop of the library is a run of rounds: at each cursor a round decides
to go on with a value and a further cursor, to stop, or to fail.  `rounds`
runs them.  A round that goes on has to come closer to the end of the source,
and so a loop takes at most as many rounds as bytes are left; one that does
not would be run for ever, and `rounds` answers `stuck`.
-/

namespace JsonGrammar

/-- What one round of a loop decides. -/
inductive Round (α : Type) where
  | again (value : α) (next : Cursor)
  | stop
  | failed (failure : Failure)
  | stuck
  deriving DecidableEq

/-- A round that has to succeed: its failure is that of the loop. -/
def Round.ofOutcome {α : Type} : Outcome α → Round α
  | .done value next => .again value next
  | .failed failure => .failed failure
  | .stuck => .stuck

namespace Parser

variable {α β : Type}

/-- Run rounds until one stops the loop, collecting their values in front of
those already taken, the last one first. -/
def rounds (round : Cursor → Round α) (taken : List α) (c : Cursor) : Outcome (List α) :=
  match round c with
  | .stop => .done taken.reverse c
  | .failed failure => .failed failure
  | .stuck => .stuck
  | .again value next =>
      if next.bytesLeft < c.bytesLeft then rounds round (value :: taken) next else .stuck
termination_by c.bytesLeft

/-- One round of `many`: go on while the parser succeeds and moves. -/
def manyRound (p : Parser α) (c : Cursor) : Round α :=
  match p c with
  | .done value next => if next.position = c.position then .stop else .again value next
  | .failed _ => .stop
  | .stuck => .stuck

/-- As many values as a parser gives one after the other, up to the first
failure.  A success that reads nothing ends the loop too, and its value is
dropped. -/
def many (p : Parser α) : Parser (List α) :=
  rounds (manyRound p) []

/-- One value, even one for which nothing is read, and then `many`. -/
def many1 (p : Parser α) : Parser (List α) :=
  p.andThen fun first => (many p).map (first :: ·)

/-- One round behind an item: without a separator the list is over, behind a
separator there has to be an item. -/
def separatedRound (p : Parser α) (separator : Parser β) (c : Cursor) : Round α :=
  match separator c with
  | .failed _ => .stop
  | .stuck => .stuck
  | .done _ behind => .ofOutcome (p behind)

/-- One or more items with separators between them. -/
def separatedList (p : Parser α) (separator : Parser β) : Parser (List α) :=
  p.andThen fun first => rounds (separatedRound p separator) [first]

end Parser

end JsonGrammar
