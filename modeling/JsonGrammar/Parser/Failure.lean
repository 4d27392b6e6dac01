import JsonGrammar.Text.Cursor
import JsonGrammar.Text.Hexadecimal
import JsonGrammar.Text.Location

/-!
# Failures

A failed run carries one failure: a cause and the location it is blamed on.
Causes keep what was wanted and what was found; `Cause.message` is the one
place where they are put into words, and `Failure.report` adds the location
and the lines around it.
-/

namespace JsonGrammar

/-- What a parser for one character was looking for. -/
inductive Expectation where
  /-- This very character. -/
  | character (ch : Char)
  /-- Any character of a class, by the name of the class. -/
  | member (description : String)
  deriving DecidableEq

namespace Expectation

/-- What was wanted, as messages name it. -/
def describe : Expectation → String
  | character ch => "'" ++ String.singleton ch ++ "'"
  | member description => description

end Expectation

/-- Why a run failed. -/
inductive Cause where
  /-- The next character, or the end of the input, was not what was wanted. -/
  | unexpected (wanted : Expectation) (found : Option Char)
  /-- Text is left where the input had to end. -/
  | leftover (rest : List Char)
  /-- The text at hand does not begin with a literal. -/
  | literalMismatch (literal : String) (rest : List Char) (inner : Cause)
  /-- A container opens more levels than the limit allows. -/
  | nestedTooDeep (limit : Nat)
  /-- A numeral whose value no finite double can hold. -/
  | outOfRange (numeral : String)
  /-- A text that is no numeral at all. -/
  | malformedNumeral (text : String)
  /-- A low surrogate without a high one before it. -/
  | loneLowSurrogate (unit : Nat)
  /-- A high surrogate whose partner is no low one. -/
  | missingLowSurrogate (high : Nat)
  /-- A number that is no character. -/
  | noSuchCharacter (codePoint : Nat)
  /-- A message of the caller's own. -/
  | note (text : String)
  deriving DecidableEq

namespace Cause

/-- The cause in words. -/
def message : Cause → String
  | unexpected wanted (some found) =>
      "expected " ++ wanted.describe ++ ", found '" ++ String.singleton found ++ "'"
  | unexpected wanted none =>
      "expected " ++ wanted.describe ++ ", but reached end of input"
  | leftover rest =>
      "expected end of input, found '" ++ String.ofList rest ++ "'"
  | literalMismatch literal rest inner =>
      "expected '" ++ literal ++ "', but found '" ++ String.ofList rest ++ "' (" ++
        inner.message ++ ")"
  | nestedTooDeep limit =>
      "maximum nesting depth of " ++ toString limit ++ " exceeded"
  | outOfRange numeral =>
      "number '" ++ numeral ++ "' is out of range"
  | malformedNumeral text =>
      "invalid number '" ++ text ++ "': invalid float literal"
  | loneLowSurrogate unit =>
      "unpaired low surrogate \\u" ++
        String.ofList (Hexadecimal.fourPlaces (Hexadecimal.upper unit))
  | missingLowSurrogate high =>
      "expected low surrogate after \\u" ++
        String.ofList (Hexadecimal.fourPlaces (Hexadecimal.upper high))
  | noSuchCharacter codePoint =>
      "invalid code point U+" ++
        String.ofList (Hexadecimal.fourPlaces (Hexadecimal.upper codePoint))
  | note text => text

end Cause

/-- A cause and the location it is blamed on. -/
structure Failure where
  cause : Cause
  location : Location
  deriving DecidableEq

namespace Failure

/-- A failure located at a cursor. -/
def raise (c : Cursor) (cause : Cause) : Failure where
  cause := cause
  location := { text := c.source, position := c.position }

/-- The cause in words. -/
def message (failure : Failure) : String :=
  failure.cause.message

/-- The position of the location, counted in characters. -/
def position (failure : Failure) : Nat :=
  failure.location.position

/-- The first line of a report. -/
def headline (failure : Failure) : String :=
  let place := failure.location.coordinates
  "Syntax error at line " ++ toString place.line ++ ", offset " ++ toString place.charOffset ++
    " (absolute position: " ++ toString failure.position ++ "): " ++ failure.message

/-- The failure for a reader: message and location, an empty line, and the
lines around the location.  A run fails inside its text, so these lines are
missing only where the text itself leaves no room for a pointer. -/
def report (failure : Failure) : String :=
  failure.headline ++ "\n\n" ++
    String.join ((failure.location.contextLines?.getD []).map (· ++ "\n"))

end Failure

end JsonGrammar
