import JsonGrammar.Number.Shortest

/-!
# Writing numbers

A double is written with the fewest digits that read back.  From one
millionth up to, not including, 10^21 all digits are written out; outside that
range one digit stands before the point and a power of ten behind.
-/

namespace JsonGrammar

namespace Numeral

/-- Digits times a power of ten, written out. -/
def positional (digits : List Char) : Int → List Char
  | .ofNat e => digits ++ List.replicate e '0'
  | .negSucc e =>
      let places := e + 1
      if places < digits.length then
        digits.take (digits.length - places) ++ '.' :: digits.drop (digits.length - places)
      else
        '0' :: '.' :: List.replicate (places - digits.length) '0' ++ digits

/-- A whole number with its sign if it is negative. -/
def integer : Int → List Char
  | .ofNat n => Nat.toDigits 10 n
  | .negSucc n => '-' :: Nat.toDigits 10 (n + 1)

/-- Digits times a power of ten, with one digit before the point. -/
def scientific (digits : List Char) (exponent : Int) : List Char :=
  digits.take 1 ++
    (match digits.drop 1 with
    | [] => []
    | fraction => '.' :: fraction) ++
    'e' :: integer (exponent + (digits.length - 1 : Nat))

/-- Where writing all digits out begins. -/
def leastPositional : Binary64 :=
  Decimal.toBinary64 { negative := false, coefficient := 1, exponent := -6 }

/-- Where writing all digits out ends. -/
def leastLarge : Binary64 :=
  Decimal.toBinary64 { negative := false, coefficient := 1, exponent := 21 }

/-- The magnitude is written out in full. -/
def isPositional (magnitude : Nat) : Bool :=
  decide (leastPositional.magnitude ≤ magnitude ∧ magnitude < leastLarge.magnitude)

/-- The text of a finite magnitude. -/
def ofMagnitude (magnitude : Nat) : List Char :=
  if magnitude = 0 then ['0']
  else
    let (multiple, grid) := Decimal.shortest magnitude
    if isPositional magnitude then positional (Nat.toDigits 10 multiple) grid
    else scientific (Nat.toDigits 10 multiple) grid

end Numeral

namespace Binary64

/-- The number as text.  Only NaN goes without a sign. -/
def render (x : Binary64) : List Char :=
  if x.isNaN then ['N', 'a', 'N']
  else
    (if x.negative then ['-'] else []) ++
      if x.isFinite then Numeral.ofMagnitude x.magnitude else ['i', 'n', 'f']

end Binary64

end JsonGrammar
