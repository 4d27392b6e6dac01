import JsonGrammar.Number.Binary64

/-!
# Rounding to the nearest double

A quotient of natural numbers is read as a multiple of 2^-1074 and rounded to
the nearest magnitude, a tie going to the even one.  Since the magnitudes of
one binade lie evenly spaced, that is the rounding of one quotient to a whole
number: the binade is found from the size of the quotient, its step divides
once more, and the rounded number of steps is added to the magnitude at which
the binade begins.  A quotient that rounds up out of its binade reaches the
next one by the same sum.
-/

namespace JsonGrammar

/-- The nearest whole number to a quotient, the even one where two are
equally near. -/
def roundHalfEven (num den : Nat) : Nat :=
  if 2 * (num % den) < den then num / den
  else if den < 2 * (num % den) then num / den + 1
  else num / den + (num / den) % 2

namespace Binary64

/-- How many times the step doubles on the way from the smallest numbers to
the binade of a number of units. -/
def doublings (units : Nat) : Nat :=
  Nat.log2 units - 52

/-- The nearest magnitude to `num / den` units of 2^-1074, as if binades went
on for ever. -/
def nearestMagnitude (num den : Nat) : Nat :=
  doublings (num / den) * binade + roundHalfEven num (den * Nat.pow 2 (doublings (num / den)))

/-- The double with a sign and the nearest magnitude to `num / den` units;
beyond the largest finite one it is infinite. -/
def ofUnits (negative : Bool) (num den : Nat) : Binary64 where
  negative := negative
  magnitude := min (nearestMagnitude num den) infinity
  magnitude_lt := Nat.lt_of_le_of_lt (Nat.min_le_right _ _) (by decide)

end Binary64

end JsonGrammar
