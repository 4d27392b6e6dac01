import JsonGrammar.Number.Rounding

/-!
# Decimals

A decimal is a signed whole number times a power of ten, held exactly.
`Decimal.read?` reads one from the text of a numeral, and `Decimal.toBinary64`
is the double nearest to it.
-/

namespace JsonGrammar

/-- The number `coefficient * 10 ^ exponent` with a sign. -/
structure Decimal where
  negative : Bool
  coefficient : Nat
  exponent : Int
  deriving DecidableEq

namespace Decimal

/-! ## Reading -/

/-- The number written by decimal digits; `none` for no digits and for
anything else. -/
def readDigits? (cs : List Char) : Option Nat :=
  if cs ≠ [] ∧ cs.all Char.isDigit then some (Nat.ofDigitChars 10 cs 0) else none

/-- What stands behind the exponent letter: digits, perhaps with a sign. -/
def readSigned? : List Char → Option Int
  | '-' :: digits => (readDigits? digits).map fun n => -(n : Int)
  | '+' :: digits => (readDigits? digits).map Int.ofNat
  | digits => (readDigits? digits).map Int.ofNat

/-- The exponent part of a numeral, which may be missing. -/
def readExponent? : List Char → Option Int
  | [] => some 0
  | ch :: cs => if ch = 'e' ∨ ch = 'E' then readSigned? cs else none

/-- A numeral without its sign: digits, perhaps a point with digits behind it,
perhaps an exponent. -/
def readUnsigned? (negative : Bool) (cs : List Char) : Option Decimal := do
  let whole := cs.takeWhile Char.isDigit
  let behind := cs.dropWhile Char.isDigit
  match behind with
  | '.' :: behind =>
      let fraction := behind.takeWhile Char.isDigit
      let exponent ← readExponent? (behind.dropWhile Char.isDigit)
      if whole = [] ∨ fraction = [] then none
      else
        some
          { negative := negative
            coefficient := Nat.ofDigitChars 10 (whole ++ fraction) 0
            exponent := exponent - fraction.length }
  | _ =>
      let exponent ← readExponent? behind
      if whole = [] then none
      else
        some
          { negative := negative
            coefficient := Nat.ofDigitChars 10 whole 0
            exponent := exponent }

/-- The decimal a text writes, if it is a numeral. -/
def read? : List Char → Option Decimal
  | '-' :: cs => readUnsigned? true cs
  | cs => readUnsigned? false cs

/-! ## The nearest double -/

/-- Every decimal but zero with this exponent or a greater one lies beyond the
largest finite double. -/
def leastInfiniteExponent : Int :=
  309

/-- The value lies below half the smallest double, as a comparison of lengths
in bits shows: ten is more than eight. -/
def vanishes (d : Decimal) : Bool :=
  decide ((Nat.log2 d.coefficient : Int) + 1076 + 3 * d.exponent ≤ 0)

/-- The double nearest to a decimal, ties to even.  Values far out of range
are settled without raising ten to their exponent. -/
def toBinary64 (d : Decimal) : Binary64 :=
  if d.coefficient = 0 ∨ d.vanishes then Binary64.zero d.negative
  else if leastInfiniteExponent ≤ d.exponent then Binary64.infinite d.negative
  else
    match d.exponent with
    | .ofNat e =>
        Binary64.ofUnits d.negative (d.coefficient * Nat.pow 10 e * Binary64.unitsInOne) 1
    | .negSucc e =>
        Binary64.ofUnits d.negative (d.coefficient * Binary64.unitsInOne) (Nat.pow 10 (e + 1))

end Decimal

end JsonGrammar
