import JsonGrammar.Json.Value
import JsonGrammar.Number.Numeral
import JsonGrammar.Text.Hexadecimal

/-!
# Printing JSON

A value is printed on one line without blanks.  In a string only the quote,
the backslash and the control characters are escaped, the control characters
by a letter where there is one.
-/

namespace JsonGrammar

namespace Json

/-- The letter behind the backslash that stands for a character, where one
does in print. -/
def escapeLetter? : Char → Option Char
  | '"' => some '"'
  | '\\' => some '\\'
  | '\n' => some 'n'
  | '\r' => some 'r'
  | '\t' => some 't'
  | '\x08' => some 'b'
  | '\x0c' => some 'f'
  | _ => none

/-- A character as it stands inside a printed string. -/
def renderChar (ch : Char) : List Char :=
  match escapeLetter? ch with
  | some letter => ['\\', letter]
  | none =>
      if ch < ' ' then '\\' :: 'u' :: Hexadecimal.fourPlaces (Hexadecimal.lower ch.toNat)
      else [ch]

/-- A text between quotes. -/
def renderString (text : String) : List Char :=
  '"' :: text.toList.flatMap renderChar ++ ['"']

mutual

/-- The value as text. -/
def render : Json → List Char
  | null => ['n', 'u', 'l', 'l']
  | bool true => ['t', 'r', 'u', 'e']
  | bool false => ['f', 'a', 'l', 's', 'e']
  | number value => value.render
  | string text => renderString text
  | array [] => ['[', ']']
  | array (item :: items) => '[' :: render item ++ renderItems items
  | object [] => ['{', '}']
  | object ((key, value) :: members) =>
      '{' :: renderString key ++ ':' :: render value ++ renderMembers members

/-- The items behind the first one, with the bracket that closes them. -/
def renderItems : List Json → List Char
  | [] => [']']
  | item :: items => ',' :: render item ++ renderItems items

/-- The members behind the first one, with the brace that closes them. -/
def renderMembers : List (String × Json) → List Char
  | [] => ['}']
  | (key, value) :: members =>
      ',' :: renderString key ++ ':' :: render value ++ renderMembers members

end

/-- The text of a value. -/
def display (value : Json) : String :=
  String.ofList value.render

end Json

end JsonGrammar
