import JsonGrammar.Parser.Failure

/-!
# Parsers

A parser takes a cursor and has one of three outcomes: a value with the cursor
behind what was read, a failure, or none at all.  A run has no outcome when a
loop in it would go round for ever without coming closer to the end, or when a
span is asked for that runs backwards.
-/

namespace JsonGrammar

/-- What became of a run. -/
inductive Outcome (α : Type) where
  /-- A value, and the cursor behind what was read for it. -/
  | done (value : α) (next : Cursor)
  | failed (failure : Failure)
  /-- The run does not end. -/
  | stuck
  deriving DecidableEq

namespace Outcome

/-- Go on with the value and the cursor of a run that succeeded. -/
def andThen {α β : Type} (outcome : Outcome α) (continuation : α → Cursor → Outcome β) :
    Outcome β :=
  match outcome with
  | .done value next => continuation value next
  | .failed failure => .failed failure
  | .stuck => .stuck

@[simp] theorem andThen_done {α β : Type} (value : α) (next : Cursor)
    (continuation : α → Cursor → Outcome β) :
    (done value next).andThen continuation = continuation value next := rfl

@[simp] theorem andThen_failed {α β : Type} (failure : Failure)
    (continuation : α → Cursor → Outcome β) :
    (failed failure).andThen continuation = failed failure := rfl

@[simp] theorem andThen_stuck {α β : Type} (continuation : α → Cursor → Outcome β) :
    (stuck : Outcome α).andThen continuation = stuck := rfl

/-- A run succeeds after `andThen` exactly when both halves do. -/
theorem andThen_eq_done_iff {α β : Type} {outcome : Outcome α}
    {continuation : α → Cursor → Outcome β} {value : β} {next : Cursor} :
    outcome.andThen continuation = done value next ↔
      ∃ first middle, outcome = done first middle ∧
        continuation first middle = done value next := by
  cases outcome <;> simp [and_assoc]

/-- A run fails after `andThen` when the first half fails, or when the second
half fails behind it. -/
theorem andThen_eq_failed_iff {α β : Type} {outcome : Outcome α}
    {continuation : α → Cursor → Outcome β} {failure : Failure} :
    outcome.andThen continuation = failed failure ↔
      outcome = failed failure ∨
        ∃ first middle, outcome = done first middle ∧
          continuation first middle = failed failure := by
  cases outcome <;> simp [and_assoc]

end Outcome

/-- A parser of values of type `α`. -/
abbrev Parser (α : Type) := Cursor → Outcome α

namespace Parser

variable {α β : Type}

/-- Run a parser at the front of a text. -/
def parse (p : Parser α) (source : String) : Outcome α :=
  p (Cursor.start source)

/-- Read nothing and give a value. -/
def succeed (value : α) : Parser α :=
  fun c => .done value c

/-- Read nothing and fail where the cursor stands. -/
def fail (cause : Cause) : Parser α :=
  fun c => .failed (Failure.raise c cause)

/-- Run a parser, then the one chosen by its value, from where it stopped. -/
def andThen (p : Parser α) (continuation : α → Parser β) : Parser β :=
  fun c => (p c).andThen continuation

/-- Change the value of a run that succeeds. -/
def map (p : Parser α) (f : α → β) : Parser β :=
  p.andThen fun value => succeed (f value)

end Parser

end JsonGrammar
