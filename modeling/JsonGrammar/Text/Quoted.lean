import JsonGrammar.Text.Hexadecimal
import JsonGrammar.Text.Printable

/-!
# Quoted text

A text between double quotes on one line, for showing what was left over.
Quotes, backslashes and a few control characters are escaped by a letter, and
whatever is not printable by its code point in braces.
-/

namespace JsonGrammar

namespace Quoted

/-- The letter behind the backslash that stands for a character, where there
is one. -/
def letter? : Char → Option Char
  | '"' => some '"'
  | '\\' => some '\\'
  | '\n' => some 'n'
  | '\r' => some 'r'
  | '\t' => some 't'
  | '\x00' => some '0'
  | _ => none

/-- A character as it stands inside the quotes. -/
def encodeChar (ch : Char) : List Char :=
  match letter? ch with
  | some letter => ['\\', letter]
  | none =>
      if Printable.isPrintable ch then [ch]
      else '\\' :: 'u' :: '{' :: Hexadecimal.lower ch.toNat ++ ['}']

/-- The text between quotes. -/
def encode (text : List Char) : List Char :=
  '"' :: text.flatMap encodeChar ++ ['"']

end Quoted

end JsonGrammar
