import JsonGrammar.Number.Decimal

/-!
# Shortest decimals

The shortest decimal of a finite positive magnitude is found by trying grids
of decimals: the multiples of one power of ten, from a coarse power to finer
ones.  If any point of a grid reads back as the magnitude, then so does one of
the two points next to its value, and only these are tried.  The first grid
with such a point wins; of two points the nearer one is taken, and halfway
between them the upper one.

Reading back is `Decimal.toBinary64` itself, so the ends of the rounding
interval need no rule of their own.
-/

namespace JsonGrammar

namespace Decimal

/-- A magnitude's value as a multiple of `10 ^ grid`: numerator and
denominator. -/
def scaled (magnitude : Nat) : Int → Nat × Nat
  | .ofNat e => (Binary64.units magnitude, Binary64.unitsInOne * Nat.pow 10 e)
  | .negSucc e => (Binary64.units magnitude * Nat.pow 10 (e + 1), Binary64.unitsInOne)

/-- A multiple of `10 ^ grid` reads back as the magnitude. -/
def readsBack (magnitude : Nat) (grid : Int) (multiple : Nat) : Bool :=
  let x := toBinary64 { negative := false, coefficient := multiple, exponent := grid }
  x.magnitude == magnitude

/-- The best multiple of `10 ^ grid` that reads back as the magnitude. -/
def onGrid? (magnitude : Nat) (grid : Int) : Option Nat :=
  let (num, den) := scaled magnitude grid
  let below := num / den
  match readsBack magnitude grid below, readsBack magnitude grid (below + 1) with
  | true, true => some (if 2 * (num % den) < den then below else below + 1)
  | true, false => some below
  | false, true => some (below + 1)
  | false, false => none

/-- The value itself, which is a whole multiple of 10^-1074. -/
def exactly (magnitude : Nat) : Nat × Int :=
  (Binary64.units magnitude * Nat.pow 5 1074, -1074)

/-- Try `tries` grids, each ten times as fine as the one before. -/
def search (magnitude : Nat) : Nat → Int → Nat × Int
  | 0, _ => exactly magnitude
  | tries + 1, grid =>
      match onGrid? magnitude grid with
      | some multiple => (multiple, grid)
      | none => search magnitude tries (grid - 1)

/-- A grid coarser than the value, from its length in bits: 0.30103 is just
above the logarithm of two. -/
def coarsestGrid (magnitude : Nat) : Int :=
  (((Nat.log2 (Binary64.units magnitude) : Int) - 1073) * 30103).fdiv 100000 + 1

/-- The fewest digits that read back as a finite magnitude, and the power of
ten they count.  Seventeen digits always do, and the first grid is at most
three powers above the first digit. -/
def shortest (magnitude : Nat) : Nat × Int :=
  search magnitude 20 (coarsestGrid magnitude)

end Decimal

end JsonGrammar
