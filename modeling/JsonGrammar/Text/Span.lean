import JsonGrammar.Text.Cursor

/-!
# Spans

A span is the stretch of text between two cursors over one source, with the
character positions of its ends.  It is cut from the rest of the first cursor
by counting bytes, and it exists only where the second cursor's byte offset
falls between two characters of that rest.
-/

namespace JsonGrammar

/-- The characters that fill exactly `bytes` bytes at the front of a list. -/
def takeBytes? : Nat → List Char → Option (List Char)
  | 0, _ => some []
  | _ + 1, [] => none
  | bytes + 1, ch :: rest =>
      if ch.utf8Size ≤ bytes + 1 then
        (takeBytes? (bytes + 1 - ch.utf8Size) rest).map (ch :: ·)
      else none

/-- The bytes of a run of characters cut off just that run. -/
theorem takeBytes?_append (xs ys : List Char) :
    takeBytes? (byteLength xs) (xs ++ ys) = some xs := by
  induction xs with
  | nil => simp [takeBytes?]
  | cons ch xs ih =>
      have hpos := ch.utf8Size_pos
      obtain ⟨bytes, hbytes⟩ : ∃ bytes, byteLength (ch :: xs) = bytes + 1 :=
        ⟨byteLength (ch :: xs) - 1, by rw [byteLength_cons]; omega⟩
      rw [hbytes, List.cons_append, takeBytes?, ← hbytes, byteLength_cons,
        if_pos (Nat.le_add_right _ _), Nat.add_sub_cancel_left, ih]
      rfl

/-- What was passed on the way from one place to another. -/
structure Span where
  start : Nat
  stop : Nat
  text : String
  deriving DecidableEq

namespace Span

/-- The stretch from `first` to `last`; `none` where `last` stands before
`first` or inside a character. -/
def between? (first last : Cursor) : Option Span :=
  if last.byteOffset < first.byteOffset then none
  else
    (takeBytes? (last.byteOffset - first.byteOffset) first.rest).map fun passed =>
      { start := first.position, stop := last.position, text := String.ofList passed }

/-- The number of characters between the two ends. -/
def length (s : Span) : Nat :=
  s.stop - s.start

/-- The two ends are the same place. -/
def isEmpty (s : Span) : Bool :=
  s.start == s.stop

end Span

end JsonGrammar
