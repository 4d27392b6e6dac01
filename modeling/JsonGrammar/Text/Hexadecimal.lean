/-!
# Hexadecimal digits

Writing a number in base sixteen, and the value of a single digit in either
case.
-/

namespace JsonGrammar

namespace Hexadecimal

/-- The digits of a number, in lower case and without leading zeros. -/
def lower (n : Nat) : List Char :=
  Nat.toDigits 16 n

/-- The digits of a number, in upper case and without leading zeros. -/
def upper (n : Nat) : List Char :=
  (lower n).map Char.toUpper

/-- Digits filled up to four places with leading zeros. -/
def fourPlaces (digits : List Char) : List Char :=
  digits.leftpad 4 '0'

/-- The value of a digit of either case. -/
def digit? (ch : Char) : Option Nat :=
  if '0' ≤ ch ∧ ch ≤ '9' then some (ch.toNat - '0'.toNat)
  else if 'a' ≤ ch ∧ ch ≤ 'f' then some (ch.toNat - 'a'.toNat + 10)
  else if 'A' ≤ ch ∧ ch ≤ 'F' then some (ch.toNat - 'A'.toNat + 10)
  else none

/-- The number written by digit values, the first one leading. -/
def ofDigits (digits : List Nat) : Nat :=
  digits.foldl (fun n digit => 16 * n + digit) 0

theorem digit?_lt {ch : Char} {digit : Nat} (hdigit : digit? ch = some digit) : digit < 16 := by
  unfold digit? at hdigit
  simp only [Char.le_def, UInt32.le_iff_toNat_le] at hdigit
  split at hdigit
  · rename_i h
    have hle : ch.toNat ≤ 57 := h.2
    simp only [Option.some.injEq] at hdigit
    have hzero : '0'.toNat = 48 := rfl
    omega
  · split at hdigit
    · rename_i h
      have hle : ch.toNat ≤ 102 := h.2
      simp only [Option.some.injEq] at hdigit
      have ha : 'a'.toNat = 97 := rfl
      omega
    · split at hdigit
      · rename_i h
        have hle : ch.toNat ≤ 70 := h.2
        simp only [Option.some.injEq] at hdigit
        have ha : 'A'.toNat = 65 := rfl
        omega
      · simp at hdigit

theorem digit?_digitChar : ∀ n < 16, digit? n.digitChar = some n := by
  decide

end Hexadecimal

end JsonGrammar
