/-!
# Locations for readers

A location is a character position in a text, possibly past its end.  This
module turns it into what a reader sees: a line number with an offset in that
line (`Location.coordinates`), and the lines around it with a pointer under
the located character (`Location.contextLines?`).

Lines are the pieces between line feeds, numbered from 1, so a text that ends
in a line feed has an empty last line.  Offsets count characters.  A location
can lie so far behind its text that the line with the pointer would be longer
than any text; then there are no lines to see.
-/

namespace JsonGrammar

/-- The number of bytes in the longest text there can be, the greatest signed
number of 64 bits. -/
def longestText : Nat :=
  9223372036854775807

/-- A character position in a text. -/
structure Location where
  text : String
  position : Nat
  deriving DecidableEq

/-- A line number, from 1, and the number of characters before the place on
that line. -/
structure Coordinates where
  line : Nat
  charOffset : Nat
  deriving DecidableEq

/-- A line shown around a location. -/
structure ContextLine where
  number : Nat
  content : String
  marked : Bool
  deriving DecidableEq

namespace ContextLine

/-- What stands before the content: a mark for the located line, the number,
and a rule. -/
def gutter (shown : ContextLine) : String :=
  (if shown.marked then "  > " else "    ") ++ toString shown.number ++ " | "

/-- The line as it is shown. -/
def render (shown : ContextLine) : String :=
  shown.gutter ++ shown.content

end ContextLine

namespace Location

/-- The characters before the location. -/
def passed (loc : Location) : List Char :=
  loc.text.toList.take loc.position

/-- The line holding the location and the offset in it.  Past the end of the
text the offset goes on counting on the last line. -/
def coordinates (loc : Location) : Coordinates where
  line := loc.passed.count '\n' + 1
  charOffset :=
    (loc.passed.reverse.takeWhile (· != '\n')).length +
      (loc.position - loc.passed.length)

/-- The pieces of the text between line feeds. -/
def lines (loc : Location) : List (List Char) :=
  loc.text.toList.splitOn '\n'

/-- A line without the carriage return that may close it. -/
def withoutReturn (line : List Char) : List Char :=
  if line.getLast? = some '\r' then line.dropLast else line

/-- The located line and up to two lines on each side of it. -/
def context (loc : Location) : List ContextLine :=
  let line := loc.coordinates.line
  (loc.lines.zipIdx 1).filterMap fun (content, number) =>
    if line - 2 ≤ number ∧ number ≤ line + 2 then
      some
        { number := number
          content := String.ofList (withoutReturn content)
          marked := number == line }
    else none

/-- The line that points at column `column`. -/
def pointerLine (column : Nat) : String :=
  String.ofList (List.replicate column ' ') ++ "^--- here"

/-- The line that points at column `column`, if a text can be that long.  That
is settled before any blank is written. -/
def pointerLine? (column : Nat) : Option String :=
  if column + "^--- here".length ≤ longestText then some (pointerLine column) else none

/-- A line of the context as text, and the pointer behind it if it is the
located one. -/
def renderPointed? (loc : Location) (shown : ContextLine) : Option (List String) :=
  if shown.marked then
    (pointerLine? (shown.gutter.length + loc.coordinates.charOffset)).map
      fun pointer => [shown.render, pointer]
  else some [shown.render]

/-- The context as text, with a pointer under the located character. -/
def contextLines? (loc : Location) : Option (List String) :=
  (loc.context.mapM loc.renderPointed?).map List.flatten

end Location

end JsonGrammar
