import JsonGrammar.Proofs.Grammar.Printing
import JsonGrammar.Proofs.Grammar.Spelling

/-!
# Looking up a key

An object is written as members with commas between them (`ObjectText`), each
the spelling of a key and the text of a value.  A text that is laid out so is
read as these members, in their order and with equal keys kept apart, exactly
where the values can be read one level further in
(`parse_document_object_iff`), and every object that is read is laid out so
(`paddedText_object_iff`).

The search for a key starts at the last member and compares decoded keys.  So
the last member with the key counts, however it is spelled
(`Json.get?_object_eq_some_iff`), and members with other keys make no difference
wherever they are put in (`Inserted.get?_eq`).
-/

namespace JsonGrammar

namespace Json

variable {key : String} {value : Json} {members : List (String × Json)}

/-! ## The last member with a key -/

/-- The places in a list of members at which a key stands. -/
def places (key : String) (members : List (String × Json)) : Set Nat :=
  {place | ∃ value, members[place]? = some (key, value)}

/-- A member in front of others counts where none of these has the key. -/
theorem get?_object_cons (m : String × Json) (members : List (String × Json)) (key : String) :
    (object (m :: members)).get? key =
      ((object members).get? key).or (if m.1 = key then some m.2 else none) := by
  simp only [get?, List.reverse_cons, List.find?_append, Option.map_or, List.find?_singleton,
    beq_iff_eq]
  split_ifs <;> rfl

theorem get?_object_eq_none_iff :
    (object members).get? key = none ↔ ∀ m ∈ members, m.1 ≠ key := by
  simp [get?]

/-- A key is found where no member behind has it too. -/
theorem get?_object_eq_some_iff_append :
    (object members).get? key = some value ↔
      ∃ front behind, members = front ++ (key, value) :: behind ∧ ∀ m ∈ behind, m.1 ≠ key := by
  -- The first member of the list is the last one of the search: it counts only
  -- where the others are searched in vain.
  induction members with
  | nil => simp [get?]
  | cons m members ih =>
      rw [get?_object_cons, Option.or_eq_some_iff, ih, get?_object_eq_none_iff]
      constructor
      · intro h
        rcases h with ⟨front, behind, rfl, hbehind⟩ | ⟨hnone, hm⟩
        · exact ⟨m :: front, behind, rfl, hbehind⟩
        · split_ifs at hm with hkey
          obtain rfl := Option.some.inj hm
          exact ⟨[], members, by rw [← hkey]; rfl, hnone⟩
      · intro h
        obtain ⟨front, behind, hmembers, hbehind⟩ := h
        cases front with
        | nil =>
            obtain ⟨rfl, rfl⟩ := List.cons.inj hmembers
            exact Or.inr ⟨hbehind, if_pos rfl⟩
        | cons first front =>
            obtain ⟨rfl, rfl⟩ := List.cons.inj hmembers
            exact Or.inl ⟨front, behind, rfl, hbehind⟩

/-- The greatest place of a key is the one behind which it does not stand. -/
theorem isGreatest_places_iff {place : Nat} (hplace : members[place]? = some (key, value)) :
    IsGreatest (places key members) place ↔ ∀ m ∈ members.drop (place + 1), m.1 ≠ key := by
  constructor
  · intro hgreatest m hm hkey
    obtain ⟨i, hi⟩ := List.mem_iff_getElem?.mp hm
    rw [List.getElem?_drop] at hi
    have hle : place + 1 + i ≤ place := hgreatest.2 ⟨m.2, by rw [hi, ← hkey]⟩
    omega
  · intro hbehind
    refine ⟨⟨value, hplace⟩, fun later hlater => ?_⟩
    obtain ⟨other, hother⟩ := hlater
    by_contra hlt
    have hmem : (key, other) ∈ members.drop (place + 1) := by
      refine List.mem_iff_getElem?.mpr ⟨later - (place + 1), ?_⟩
      rwa [List.getElem?_drop, Nat.add_sub_cancel' (by omega)]
    exact hbehind _ hmem rfl

/-- The value of a key is that of the member at the greatest place at which the
key stands. -/
theorem get?_object_eq_some_iff :
    (object members).get? key = some value ↔
      ∃ place, IsGreatest (places key members) place ∧ members[place]? = some (key, value) := by
  rw [get?_object_eq_some_iff_append]
  constructor
  · intro h
    obtain ⟨front, behind, rfl, hbehind⟩ := h
    have hplace : (front ++ (key, value) :: behind)[front.length]? = some (key, value) := by
      simp
    refine ⟨front.length, (isGreatest_places_iff hplace).mpr ?_, hplace⟩
    simpa using hbehind
  · intro h
    obtain ⟨place, hgreatest, hplace⟩ := h
    obtain ⟨hlt, hget⟩ := List.getElem?_eq_some_iff.mp hplace
    refine ⟨members.take place, members.drop (place + 1), ?_,
      (isGreatest_places_iff hplace).mp hgreatest⟩
    rw [← hget, List.cons_getElem_drop_succ, List.take_append_drop]

end Json

namespace Grammar

/-! ## Members as they are written -/

/-- A member in the text of an object: the key in one of its spellings between
quotes and the text of the value, with white space around both. -/
structure WrittenMember where
  before : List Char
  spelling : List Char
  after : List Char
  valueText : List Char
  key : String
  value : Json
  blank_before : Blank before
  spells : Spells spelling key
  blank_after : Blank after
  denotes : PaddedText valueText value

namespace WrittenMember

/-- The key as it is written, between its quotes. -/
def keyText (m : WrittenMember) : List Char :=
  '"' :: m.spelling ++ ['"']

/-- The member as it is written. -/
def text (m : WrittenMember) : List Char :=
  m.before ++ m.keyText ++ m.after ++ ':' :: m.valueText

/-- What the member means. -/
def pair (m : WrittenMember) : String × Json :=
  (m.key, m.value)

theorem memberText (m : WrittenMember) : MemberText m.text m.pair :=
  .pair m.blank_before (stringText_iff_spells.mpr ⟨_, m.spells, rfl⟩) m.blank_after m.denotes

theorem exists_of_memberText {text : List Char} {p : String × Json} (h : MemberText text p) :
    ∃ m : WrittenMember, m.text = text ∧ m.pair = p := by
  cases h with
  | @pair before keyText after valueText key value hbefore hkey hafter hvalue =>
      obtain ⟨spelling, hspells, rfl⟩ := stringText_iff_spells.mp hkey
      exact ⟨⟨before, spelling, after, valueText, key, value, hbefore, hspells, hafter, hvalue⟩,
        rfl, rfl⟩

end WrittenMember

/-- The text of an object with these members, white space around it: commas
between the members, or white space alone where there are none. -/
inductive ObjectText : List WrittenMember → List Char → Prop where
  | empty {before blank after : List Char} (hbefore : Blank before) (h : Blank blank)
      (hafter : Blank after) : ObjectText [] (before ++ ('{' :: blank ++ ['}']) ++ after)
  | filled {before after : List Char} {written : List WrittenMember} (hbefore : Blank before)
      (hne : written ≠ []) (hafter : Blank after) :
      ObjectText written
        (before ++ ('{' :: [','].intercalate (written.map WrittenMember.text) ++ ['}']) ++ after)

theorem separated_intercalate (m : WrittenMember) (written : List WrittenMember) :
    Reading.Separated MemberText ([','].intercalate ((m :: written).map WrittenMember.text))
      ((m :: written).map WrittenMember.pair) := by
  induction written generalizing m with
  | nil => simpa using Reading.Separated.one m.memberText
  | cons next written ih => simpa using Reading.Separated.more m.memberText (ih next)

theorem exists_written_of_separated {text : List Char} {members : List (String × Json)}
    (h : Reading.Separated MemberText text members) :
    ∃ m written, [','].intercalate ((m :: written).map WrittenMember.text) = text ∧
      (m :: written).map WrittenMember.pair = members := by
  induction h with
  | one h =>
      obtain ⟨m, rfl, rfl⟩ := WrittenMember.exists_of_memberText h
      exact ⟨m, [], by simp, rfl⟩
  | more h _ ih =>
      obtain ⟨m, rfl, rfl⟩ := WrittenMember.exists_of_memberText h
      obtain ⟨next, written, rfl, rfl⟩ := ih
      exact ⟨m, next :: written, by simp, rfl⟩

/-- The grammar reads a text as an object exactly where it is laid out in the
members of that object. -/
theorem paddedText_object_iff {text : List Char} {members : List (String × Json)} :
    PaddedText text (.object members) ↔
      ∃ written, ObjectText written text ∧ written.map WrittenMember.pair = members := by
  constructor
  · intro h
    cases h with
    | padded hbefore h hafter =>
        cases h with
        | emptyObject h => exact ⟨[], .empty hbefore h hafter, rfl⟩
        | object h =>
            obtain ⟨m, written, rfl, rfl⟩ := exists_written_of_separated h
            exact ⟨m :: written, .filled hbefore (List.cons_ne_nil _ _) hafter, rfl⟩
  · intro h
    obtain ⟨written, h, rfl⟩ := h
    cases h with
    | empty hbefore h hafter => exact .padded hbefore (.emptyObject h) hafter
    | filled hbefore hne hafter =>
        obtain ⟨m, written, rfl⟩ := List.exists_cons_of_ne_nil hne
        exact .padded hbefore (.object (separated_intercalate m written)) hafter

/-! ## Members put in -/

/-- The second list is the first one with members of other keys put in, at any
places. -/
inductive Inserted (key : String) : List WrittenMember → List WrittenMember → Prop where
  | nil : Inserted key [] []
  | keep (m : WrittenMember) {written wider : List WrittenMember}
      (h : Inserted key written wider) : Inserted key (m :: written) (m :: wider)
  | insert {m : WrittenMember} (hkey : m.key ≠ key) {written wider : List WrittenMember}
      (h : Inserted key written wider) : Inserted key written (m :: wider)

/-- Members with other keys do not change what is found for a key. -/
theorem Inserted.get?_eq {key : String} {written wider : List WrittenMember}
    (h : Inserted key written wider) :
    (Json.object (wider.map WrittenMember.pair)).get? key =
      (Json.object (written.map WrittenMember.pair)).get? key := by
  induction h with
  | nil => rfl
  | keep m _ ih =>
      rw [List.map_cons, List.map_cons, Json.get?_object_cons, Json.get?_object_cons, ih]
  | @insert m hkey _ _ _ ih =>
      rw [List.map_cons, Json.get?_object_cons, if_neg (show m.pair.1 ≠ key from hkey),
        Option.or_none, ih]

end Grammar

namespace Rule

open JsonGrammar.Parser Grammar

/-! ## Objects as documents -/

/-- What is written for the key and for the value, each read on its own. -/
structure ReadsAlone (limits : Limits) (m : WrittenMember) : Prop where
  key : parse stringLiteral (String.ofList m.keyText) =
    .done m.key (Cursor.finish (String.ofList m.keyText))
  value : parse (document limits) (String.ofList m.valueText) =
    .done m.value (Cursor.finish (String.ofList m.valueText))

/-- The key is read whatever the limit is, and the value where it nests no
deeper. -/
theorem readsAlone_iff {limits : Limits} {m : WrittenMember} :
    ReadsAlone limits m ↔ m.value.depth ≤ limits.maxDepth := by
  constructor
  · intro h
    exact ((parse_document_eq_done_iff _ _ _ _).mp h.value).2.1
  · intro hdepth
    constructor
    · have htext : StringText (String.ofList m.keyText).toList m.key := by
        rw [String.toList_ofList]
        exact stringText_iff_spells.mpr ⟨_, m.spells, rfl⟩
      have hrun := consumes_stringLiteral htext [] (Cursor.placed_start _) (List.append_nil _).symm
      rwa [Cursor.advance_toList] at hrun
    · have htext : PaddedText (String.ofList m.valueText).toList m.value := by
        rw [String.toList_ofList]
        exact m.denotes
      exact (parse_document_eq_done_iff _ _ _ _).mpr ⟨htext, hdepth, rfl⟩

/-- An object nests within a limit where its values nest one level less. -/
theorem depth_written_le_iff {written : List WrittenMember} {limit : Nat} :
    (Json.object (written.map WrittenMember.pair)).depth ≤ limit ↔
      ∃ levels, limit = levels + 1 ∧ ∀ m ∈ written, ReadsAlone { maxDepth := levels } m := by
  cases limit with
  | zero => simp [Json.depth]
  | succ levels => simp [Json.depth_object_le_iff, readsAlone_iff, WrittenMember.pair]

/-- A text that is laid out as an object is a document exactly where its values
are, one level further in, and it is read as the members that are written. -/
theorem parse_document_object_iff {limits : Limits} {source : String}
    {written : List WrittenMember} (h : ObjectText written source.toList) {v : Json} {n : Cursor} :
    parse (document limits) source = .done v n ↔
      (∃ levels, limits.maxDepth = levels + 1 ∧
        ∀ m ∈ written, ReadsAlone { maxDepth := levels } m) ∧
      v = .object (written.map WrittenMember.pair) ∧ n = Cursor.finish source := by
  have htext := paddedText_object_iff.mpr ⟨written, h, rfl⟩
  obtain ⟨hdone, hfailed⟩ := decides_document limits htext
  rw [depth_written_le_iff] at hdone hfailed
  constructor
  · intro hrun
    by_cases hfits : ∃ levels, limits.maxDepth = levels + 1 ∧
        ∀ m ∈ written, ReadsAlone { maxDepth := levels } m
    · obtain ⟨rfl, rfl⟩ := Outcome.done.inj (hrun.symm.trans (hdone hfits))
      exact ⟨hfits, rfl, rfl⟩
    · obtain ⟨failure, hrun', -⟩ := hfailed hfits
      simp [hrun] at hrun'
  · intro h'
    obtain ⟨hfits, rfl, rfl⟩ := h'
    exact hdone hfits

/-! ## Looking up -/

/-- Every object that is read is laid out in members, and of every such layout
the object has exactly the members, each key and value as it is read on its own.
Looking up a key gives the value of the last of them whose decoded key it is,
and nothing where there is none; putting in members with other keys, so that the
text can still be read, makes no difference. -/
theorem lookup_takes_last_member (limits : Limits) (source : String) :
    (∀ members n, parse (document limits) source = .done (.object members) n →
      ∃ written, ObjectText written source.toList) ∧
    ∀ written v n, ObjectText written source.toList →
      parse (document limits) source = .done v n →
        v = .object (written.map WrittenMember.pair) ∧
        (∃ levels, limits.maxDepth = levels + 1 ∧
          ∀ m ∈ written, ReadsAlone { maxDepth := levels } m) ∧
        (∀ key value, v.get? key = some value ↔
          ∃ place, IsGreatest (Json.places key (written.map WrittenMember.pair)) place ∧
            (written.map WrittenMember.pair)[place]? = some (key, value)) ∧
        (∀ key, v.get? key = none ↔ ∀ m ∈ written, m.key ≠ key) ∧
        ∀ key wider source' limits' v' n', Inserted key written wider →
          ObjectText wider source'.toList →
          parse (document limits') source' = .done v' n' → v'.get? key = v.get? key := by
  constructor
  · intro members n hrun
    obtain ⟨written, h, -⟩ :=
      paddedText_object_iff.mp ((parse_document_eq_done_iff _ _ _ _).mp hrun).1
    exact ⟨written, h⟩
  · intro written v n h hrun
    obtain ⟨hfits, rfl, -⟩ := (parse_document_object_iff h).mp hrun
    refine ⟨rfl, hfits, fun key value => Json.get?_object_eq_some_iff, fun key => ?_, ?_⟩
    · simp [Json.get?_object_eq_none_iff, WrittenMember.pair]
    · intro key wider source' limits' v' n' hinserted h' hrun'
      obtain ⟨-, rfl, -⟩ := (parse_document_object_iff h').mp hrun'
      exact hinserted.get?_eq

/-- The same key by itself and by its number, and another member between. -/
theorem lookup_takes_last_member_respelled :
    let source := "\x7b\"é\":null, \"\\u00e9\" :[]\x7d"
    let source' := "\x7b\"é\":null,\"b\":\x7b\x7d, \"\\u00e9\" :[]\x7d"
    let v := Json.object [("é", .null), ("é", .array [])]
    let v' := Json.object [("é", .null), ("b", .object []), ("é", .array [])]
    parse (document { maxDepth := 2 }) source = .done v (Cursor.finish source) ∧
      parse (document { maxDepth := 3 }) source' = .done v' (Cursor.finish source') ∧
      (∃ written wider, ObjectText written source.toList ∧ ObjectText wider source'.toList ∧
        Inserted "é" written wider) ∧
      v.get? "é" = some (.array []) ∧ v.get? "e" = none ∧ v'.get? "é" = some (.array []) := by
  intro source source' v v'
  let first : WrittenMember :=
    { before := [], spelling := ['é'] ++ [], after := [], valueText := ['n', 'u', 'l', 'l'],
      key := "é", value := .null, blank_before := blank_nil,
      spells := .cons (.plain (by decide) (by decide) (by decide)) .nil,
      blank_after := blank_nil, denotes := Json.paddedText_of_valueText .null }
  let other : WrittenMember :=
    { before := [], spelling := ['b'] ++ [], after := [], valueText := ['{', '}'],
      key := "b", value := .object [], blank_before := blank_nil,
      spells := .cons (.plain (by decide) (by decide) (by decide)) .nil,
      blank_after := blank_nil, denotes := Json.paddedText_of_valueText (.emptyObject blank_nil) }
  let last : WrittenMember :=
    { before := [' '], spelling := '\\' :: 'u' :: ['0', '0', 'e', '9'] ++ [], after := [' '],
      valueText := ['[', ']'], key := "é", value := .array [], blank_before := by simp [Blank],
      spells := .cons (.number (show UnitText _ (0 * 16 ^ 3 + 0 * 16 ^ 2 + 14 * 16 + 9) from
        .digits (by decide) (by decide) (by decide) (by decide))) .nil,
      blank_after := by simp [Blank],
      denotes := Json.paddedText_of_valueText (.emptyArray blank_nil) }
  have hlayout : source.toList =
      [] ++ ('{' :: [','].intercalate ([first, last].map WrittenMember.text) ++ ['}']) ++ [] := by
    decide
  have hlayout' : source'.toList =
      [] ++ ('{' :: [','].intercalate ([first, other, last].map WrittenMember.text) ++ ['}']) ++
        [] := by
    decide
  have htext : ObjectText [first, last] source.toList :=
    hlayout ▸ .filled blank_nil (List.cons_ne_nil _ _) blank_nil
  have htext' : ObjectText [first, other, last] source'.toList :=
    hlayout' ▸ .filled blank_nil (List.cons_ne_nil _ _) blank_nil
  have hinserted : Inserted "é" [first, last] [first, other, last] :=
    .keep first (.insert (show "b" ≠ "é" by decide) (.keep last .nil))
  have hrun : parse (document { maxDepth := 2 }) source = .done v (Cursor.finish source) := by
    decide +kernel
  have hrun' : parse (document { maxDepth := 3 }) source' = .done v' (Cursor.finish source') := by
    decide +kernel
  obtain ⟨-, -, hsome, hnone, hsame⟩ := (lookup_takes_last_member _ _).2 _ _ _ htext hrun
  have hgreatest : IsGreatest (Json.places "é" [("é", .null), ("é", .array [])]) 1 :=
    (Json.isGreatest_places_iff rfl).mpr (by simp)
  have hfound : v.get? "é" = some (.array []) := (hsome _ _).mpr ⟨1, hgreatest, rfl⟩
  refine ⟨hrun, hrun', ⟨_, _, htext, htext', hinserted⟩, hfound, (hnone "e").mpr ?_, ?_⟩
  · simp [first, last]
  · rw [hsame _ _ _ _ _ _ hinserted htext' hrun', hfound]

end Rule

end JsonGrammar
