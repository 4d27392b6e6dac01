/-!
# Doubles

A double is a sign and a magnitude.  The magnitude is the number written by
the 63 bits below the sign bit, and that order is the order of the values: the
finite magnitudes come first, then infinity, then the NaNs.

Every finite double is a whole number of units of 2^-1074 (`Binary64.units`),
so that questions about doubles become questions about natural numbers.
-/

namespace JsonGrammar

namespace Binary64

/-- The number of magnitudes in one binade. -/
abbrev binade : Nat :=
  Nat.pow 2 52

/-- The number of magnitudes, infinity and the NaNs among them. -/
abbrev magnitudes : Nat :=
  Nat.pow 2 63

/-- The number of units in one. -/
abbrev unitsInOne : Nat :=
  Nat.pow 2 1074

end Binary64

/-- A 64-bit floating-point number. -/
structure Binary64 where
  negative : Bool
  magnitude : Nat
  magnitude_lt : magnitude < Binary64.magnitudes
  deriving DecidableEq

namespace Binary64

/-- The magnitude of infinity, the first one that is not finite. -/
def infinity : Nat :=
  2047 * binade

/-- The zero with a sign. -/
def zero (negative : Bool) : Binary64 where
  negative := negative
  magnitude := 0
  magnitude_lt := by decide

/-- The infinity with a sign. -/
def infinite (negative : Bool) : Binary64 where
  negative := negative
  magnitude := infinity
  magnitude_lt := by decide

/-- Neither an infinity nor a NaN. -/
def isFinite (x : Binary64) : Bool :=
  decide (x.magnitude < infinity)

/-- The magnitudes above infinity are no numbers. -/
def isNaN (x : Binary64) : Bool :=
  decide (infinity < x.magnitude)

/-- One of the two zeros. -/
def isZero (x : Binary64) : Bool :=
  x.magnitude == 0

/-- The value of a finite magnitude as a multiple of 2^-1074.  The first
binade and the subnormal numbers below it step by one unit, every later binade
by twice as many units as the one before. -/
def units (magnitude : Nat) : Nat :=
  if magnitude < binade then magnitude
  else (binade + magnitude % binade) * Nat.pow 2 (magnitude / binade - 1)

/-! ## Bit patterns -/

/-- The double with a bit pattern: the sign is the highest bit, the other bits
are the magnitude. -/
def ofBits (bits : UInt64) : Binary64 where
  negative := decide (magnitudes ≤ bits.toNat)
  magnitude := bits.toNat % magnitudes
  magnitude_lt := Nat.mod_lt _ (by decide)

/-- The bit pattern of a double. -/
def toBits (x : Binary64) : UInt64 :=
  UInt64.ofNat ((if x.negative then magnitudes else 0) + x.magnitude)

theorem toNat_toBits (x : Binary64) :
    x.toBits.toNat = (if x.negative then magnitudes else 0) + x.magnitude := by
  have hlt := x.magnitude_lt
  have hmagnitudes : magnitudes = 2 ^ 63 := rfl
  unfold toBits
  rw [UInt64.toNat_ofNat']
  apply Nat.mod_eq_of_lt
  split <;> omega

theorem ofBits_toBits (x : Binary64) : ofBits x.toBits = x := by
  obtain ⟨negative, magnitude, hlt⟩ := x
  have hbits := toNat_toBits ⟨negative, magnitude, hlt⟩
  cases negative <;> simp only [ofBits, mk.injEq, hbits] <;> constructor <;> simp <;> omega

theorem toBits_ofBits (bits : UInt64) : (ofBits bits).toBits = bits := by
  apply UInt64.toNat_inj.mp
  have hlt := bits.toNat_lt
  have hmagnitudes : magnitudes = 2 ^ 63 := rfl
  rw [toNat_toBits]
  simp only [ofBits, decide_eq_true_eq, hmagnitudes]
  split <;> omega

/-! ## Comparison -/

/-- Equality of numbers: a NaN equals nothing, and the two zeros are equal. -/
def equals (x y : Binary64) : Bool :=
  !x.isNaN && !y.isNaN && (decide (x = y) || (x.isZero && y.isZero))

end Binary64

end JsonGrammar
