/-!
# Cursors

A cursor is a place between two characters of a text.  It counts the
characters and the UTF-8 bytes before that place and holds the characters
behind it.  A cursor is a value: moving on gives a new one, and an old one can
be taken up again at any time.

`Cursor.Placed` says that the counters and the rest belong to one place of the
source.  `Cursor.start` has it and `Cursor.next?` keeps it.
-/

namespace JsonGrammar

/-- The number of bytes a list of characters takes in UTF-8. -/
def byteLength : List Char → Nat
  | [] => 0
  | ch :: cs => ch.utf8Size + byteLength cs

@[simp] theorem byteLength_nil : byteLength [] = 0 := rfl

@[simp] theorem byteLength_cons (ch : Char) (cs : List Char) :
    byteLength (ch :: cs) = ch.utf8Size + byteLength cs := rfl

@[simp] theorem byteLength_append (xs ys : List Char) :
    byteLength (xs ++ ys) = byteLength xs + byteLength ys := by
  induction xs with
  | nil => simp
  | cons ch xs ih => rw [List.cons_append, byteLength_cons, byteLength_cons, ih, Nat.add_assoc]

/-- The encoding of a list of characters has as many bytes as they take. -/
theorem size_utf8Encode (cs : List Char) : cs.utf8Encode.size = byteLength cs := by
  induction cs with
  | nil => simp
  | cons ch cs ih =>
      rw [List.utf8Encode_cons, ByteArray.size_append, ih, byteLength_cons,
        List.utf8Encode_singleton, List.size_toByteArray, String.length_utf8EncodeChar]

/-- The bytes of a text are the bytes of its characters. -/
theorem byteLength_toList (text : String) : byteLength text.toList = text.utf8ByteSize := by
  rw [← size_utf8Encode, String.utf8Encode_toList, String.size_toByteArray]

/-- A character takes at least one byte. -/
theorem byteLength_pos_of_cons (ch : Char) (cs : List Char) : 0 < byteLength (ch :: cs) := by
  have hpos := ch.utf8Size_pos
  rw [byteLength_cons]; omega

/-- A place in `source`: `position` characters and `byteOffset` bytes stand
before it, `rest` stands behind it. -/
structure Cursor where
  source : String
  position : Nat
  byteOffset : Nat
  rest : List Char
  deriving DecidableEq

namespace Cursor

/-- The place before the first character. -/
def start (source : String) : Cursor where
  source := source
  position := 0
  byteOffset := 0
  rest := source.toList

/-- The place `ch` further on, with `rest` behind it. -/
def past (c : Cursor) (ch : Char) (rest : List Char) : Cursor where
  source := c.source
  position := c.position + 1
  byteOffset := c.byteOffset + ch.utf8Size
  rest := rest

/-- The next character and the place behind it; `none` at the end. -/
def next? (c : Cursor) : Option (Char × Cursor) :=
  match c.rest with
  | [] => none
  | ch :: rest => some (ch, c.past ch rest)

/-- The next character, left where it is. -/
def peek? (c : Cursor) : Option Char :=
  c.rest.head?

/-- The place `count` characters further on, or the end where fewer are
left. -/
def skip : Nat → Cursor → Cursor
  | 0, c => c
  | count + 1, c =>
      match c.next? with
      | none => c
      | some (_, next) => next.skip count

/-- The bytes of the source that stand behind the cursor. -/
def bytesLeft (c : Cursor) : Nat :=
  c.source.utf8ByteSize - c.byteOffset

/-- The whole source has been passed. -/
def isAtEnd (c : Cursor) : Bool :=
  c.bytesLeft == 0

/-- The characters behind the cursor as a text. -/
def restText (c : Cursor) : String :=
  String.ofList c.rest

/-! ## Cursors that stand in their source -/

/-- The counters and the rest of `c` describe one place of its source. -/
def Placed (c : Cursor) : Prop :=
  ∃ passed : List Char,
    c.source.toList = passed ++ c.rest ∧
      c.position = passed.length ∧ c.byteOffset = byteLength passed

theorem placed_start (source : String) : (start source).Placed :=
  ⟨[], by simp [start], rfl, rfl⟩

/-- In a placed cursor the bytes left are the bytes of the rest. -/
theorem Placed.bytesLeft_eq {c : Cursor} (hc : c.Placed) : c.bytesLeft = byteLength c.rest := by
  obtain ⟨passed, hsource, _, hbytes⟩ := hc
  have hsize := byteLength_toList c.source
  rw [hsource, byteLength_append] at hsize
  unfold bytesLeft; omega

/-- A placed cursor is at the end exactly when nothing is left behind it. -/
theorem Placed.isAtEnd_iff {c : Cursor} (hc : c.Placed) : c.isAtEnd = true ↔ c.rest = [] := by
  rw [isAtEnd, beq_iff_eq, hc.bytesLeft_eq]
  cases hrest : c.rest with
  | nil => simp
  | cons ch rest =>
      have hpos := byteLength_pos_of_cons ch rest
      simp only [reduceCtorEq, iff_false]; omega

end Cursor

end JsonGrammar
