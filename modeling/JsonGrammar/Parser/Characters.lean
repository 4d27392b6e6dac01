import JsonGrammar.Parser.Combinators
import JsonGrammar.Parser.Repetition

/-!
# Parsers for characters and literals

The parsers that look at the text itself: single characters, classes of
characters, literals, white space, and the end of the input.  All other
parsers are made from these.
-/

namespace JsonGrammar

namespace Parser

/-- The next character if a test holds of it; otherwise a failure that says
what was wanted. -/
def expecting (wanted : Expectation) (test : Char → Bool) : Parser Char := fun c =>
  match c.next? with
  | none => .failed (Failure.raise c (.unexpected wanted none))
  | some (found, next) =>
      if test found then .done found next
      else .failed (Failure.raise c (.unexpected wanted (some found)))

/-- Any character. -/
def anyChar : Parser Char :=
  expecting (.member "any character") fun _ => true

/-- This very character. -/
def char (wanted : Char) : Parser Char :=
  expecting (.character wanted) (· == wanted)

/-- A character of a class, by a description of the class. -/
def satisfy (test : Char → Bool) (description : String) : Parser Char :=
  expecting (.member description) test

/-- Nothing, where nothing is left. -/
def endOfInput : Parser Unit := fun c =>
  if c.isAtEnd then .done () c
  else .failed (Failure.raise c (.leftover c.rest))

/-- This very text.  A mismatch anywhere in it is blamed on the place where it
had to begin. -/
def literal (text : String) : Parser String := fun c =>
  ((inTurn (text.toList.map char)).map String.ofList).mapFailure
    (fun inner => Failure.raise c (.literalMismatch text c.rest inner.cause)) c

/-- Space, tab, line feed or carriage return. -/
def isBlank (ch : Char) : Bool :=
  ch == ' ' || ch == '\t' || ch == '\n' || ch == '\r'

/-- Any run of blank characters. -/
def whitespace : Parser Unit :=
  skip (many (satisfy isBlank "whitespace"))

end Parser

end JsonGrammar
