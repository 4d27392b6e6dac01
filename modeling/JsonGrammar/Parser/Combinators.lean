import JsonGrammar.Parser.Basic
import JsonGrammar.Text.Span

/-!
# Putting parsers together

Choice, sequence, option, brackets, relabelled failures and spans.  Choice
goes back to where its first branch began, however far that branch had come;
everything else runs from left to right and stops at the first failure.
-/

namespace JsonGrammar

namespace Parser

variable {α β γ : Type}

/-- Try a parser, and on failure another one from the same cursor.  Where both
fail the failure is that of the second. -/
def orElse (p q : Parser α) : Parser α := fun c =>
  match p c with
  | .failed _ => q c
  | outcome => outcome

/-- Run a parser for what it reads and drop the value. -/
def skip (p : Parser α) : Parser Unit :=
  p.map fun _ => ()

/-- Two parsers one after the other, keeping both values. -/
def pair (p : Parser α) (q : Parser β) : Parser (α × β) :=
  p.andThen fun first => q.map fun second => (first, second)

/-- Two parsers one after the other, keeping the first value. -/
def thenSkip (p : Parser α) (q : Parser β) : Parser α :=
  p.andThen fun first => q.map fun _ => first

/-- Two parsers one after the other, keeping the second value. -/
def skipThen (p : Parser α) (q : Parser β) : Parser β :=
  p.andThen fun _ => q

/-- All parsers of a list in turn. -/
def inTurn : List (Parser α) → Parser (List α)
  | [] => succeed []
  | p :: ps => p.andThen fun first => (inTurn ps).map (first :: ·)

/-- Content between two brackets, whose values are dropped. -/
def between (opening : Parser α) (content : Parser β) (closing : Parser γ) : Parser β :=
  opening.skipThen (content.thenSkip closing)

/-- The value of a parser, or `none` with nothing read where it fails. -/
def optional (p : Parser α) : Parser (Option α) :=
  orElse (p.map some) (succeed none)

/-- Change the failure of a run that fails. -/
def mapFailure (p : Parser α) (f : Failure → Failure) : Parser α := fun c =>
  match p c with
  | .failed failure => .failed (f failure)
  | outcome => outcome

/-- The value of a parser with the span it read. -/
def withSpan (p : Parser α) : Parser (α × Span) := fun c =>
  (p c).andThen fun value next =>
    match Span.between? c next with
    | some span => .done (value, span) next
    | none => .stuck

end Parser

end JsonGrammar
