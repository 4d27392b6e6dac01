import JsonGrammar.Proofs.Cursor.Reached
import JsonGrammar.Proofs.Parser.Contract

/-!
# Lists with separators, and their backtracking form

A list with separators can also be put together from the other combinators: an
item, and then as often as possible a separator and an item.  The two go
through the same rounds (`separatedRound_eq_again_iff_many`) and differ in how
they stop.  Where a separator has no item behind it, the backtracking form goes
back to the place before the separator and succeeds; the list fails as the item
does.

So the list is the backtracking form with one thing more asked of it, that no
separator stands behind the last item
(`separatedList_iff_backtracking`).
-/

namespace JsonGrammar

namespace Parser

variable {α β : Type}

/-- Wherever the parser succeeds in a source it has come to a place of that
source that does not lie before the one it began at. -/
def MovesOn (p : Parser α) : Prop :=
  ∀ ⦃source : String⦄ ⦃c n : Cursor⦄ ⦃value : α⦄, Cursor.Reached source c →
    p c = .done value n → Cursor.Reached source n ∧ c.position ≤ n.position

theorem Yields.movesOn {p : Parser α} {A : Reading α} (hp : p.Yields A) : p.MovesOn := by
  intro source c n value hc hrun
  obtain ⟨text, hreads, -⟩ := hp hc.standsIn.placed hrun
  exact ⟨hc.reads hreads, by rw [hreads.position_eq]; omega⟩

/-- A parser that never goes back reads what it moves over. -/
theorem MovesOn.yields {p : Parser α} (hp : p.MovesOn) : p.Yields fun _ _ => True := by
  intro c n value hc hrun
  have hreached : Cursor.Reached c.source c :=
    Cursor.reached_iff_standsIn.mpr (Cursor.standsIn_of_placed hc)
  obtain ⟨hn, hle⟩ := hp hreached hrun
  obtain ⟨text, hreads⟩ := hreached.standsIn.reads_of_le hn.standsIn hle
  exact ⟨text, hreads, trivial⟩

/-- A separator with an item behind it is never empty. -/
def RoundsAdvance (p : Parser α) (separator : Parser β) : Prop :=
  ∀ ⦃source : String⦄ ⦃c m n : Cursor⦄ ⦃b : β⦄ ⦃value : α⦄, Cursor.Reached source c →
    separator c = .done b m → p m = .done value n → c.position < n.position

/-! ## Rounds -/

/-- The rounds of two loops go on together, the one with the values that the
other has in its pairs; then the chains of their rounds do too. -/
theorem chain_iff_of_rounds {round : Cursor → Round α} {paired : Cursor → Round (β × α)}
    {Stands : Cursor → Prop}
    (hround : ∀ c n value, Stands c →
      (round c = .again value n ↔ ∃ b, paired c = .again (b, value) n))
    (hstands : ∀ c n value, Stands c → round c = .again value n → Stands n) {c n : Cursor}
    {values : List α} (hc : Stands c) :
    Chain round c values n ↔
      ∃ pairs, Chain paired c pairs n ∧ values = pairs.map Prod.snd := by
  constructor
  · intro h
    induction h with
    | nil c => exact ⟨[], .nil c, rfl⟩
    | @cons c m n value values hagain hcloser _ ih =>
        obtain ⟨b, hpaired⟩ := (hround c m value hc).mp hagain
        obtain ⟨pairs, hchain, rfl⟩ := ih (hstands c m value hc hagain)
        exact ⟨(b, value) :: pairs, .cons hpaired hcloser hchain, rfl⟩
  · intro h
    obtain ⟨pairs, hchain, rfl⟩ := h
    induction hchain with
    | nil c => exact .nil c
    | @cons c m n value pairs hpaired hcloser _ ih =>
        have hagain := (hround c m value.2 hc).mpr ⟨value.1, hpaired⟩
        exact .cons hagain hcloser (ih (hstands c m value.2 hc hagain))

section

variable {p : Parser α} {separator : Parser β} {source : String} {c n : Cursor}

/-- A round of the list goes on exactly where one of the backtracking form
does. -/
theorem separatedRound_eq_again_iff_many (hround : RoundsAdvance p separator)
    (hc : Cursor.Reached source c) {value : α} :
    separatedRound p separator c = .again value n ↔
      ∃ b, manyRound (separator.pair p) c = .again (b, value) n := by
  rw [separatedRound_eq_again_iff]
  simp only [manyRound_eq_again_iff, pair_eq_done_iff]
  constructor
  · intro h
    obtain ⟨b, m, hseparator, hitem⟩ := h
    exact ⟨b, ⟨m, hseparator, hitem⟩, Nat.ne_of_gt (hround hc hseparator hitem)⟩
  · intro h
    obtain ⟨b, ⟨m, hseparator, hitem⟩, -⟩ := h
    exact ⟨b, m, hseparator, hitem⟩

/-- The backtracking form stops where no separator stands, or none with an item
behind it. -/
theorem manyRound_pair_eq_stop_iff (hround : RoundsAdvance p separator)
    (hc : Cursor.Reached source c) :
    manyRound (separator.pair p) c = .stop ↔
      ∃ failure, separator c = .failed failure ∨
        ∃ b m, separator c = .done b m ∧ p m = .failed failure := by
  rw [manyRound_eq_stop_iff]
  simp only [pair_eq_failed_iff]
  constructor
  · intro h
    rcases h with h | ⟨⟨b, value⟩, n, hpair, hposition⟩
    · exact h
    · obtain ⟨m, hseparator, hitem⟩ := pair_eq_done_iff.mp hpair
      have hlt := hround hc hseparator hitem
      omega
  · exact Or.inl

theorem separatedRound_movesOn (hp : p.MovesOn) (hseparator : separator.MovesOn)
    (hc : Cursor.Reached source c) {value : α}
    (hagain : separatedRound p separator c = .again value n) : Cursor.Reached source n := by
  obtain ⟨b, m, hb, hvalue⟩ := separatedRound_eq_again_iff.mp hagain
  exact (hp (hseparator hc hb).1 hvalue).1

theorem Chain.reached (hp : p.MovesOn) (hseparator : separator.MovesOn) {values : List α}
    (h : Chain (separatedRound p separator) c values n) (hc : Cursor.Reached source c) :
    Cursor.Reached source n := by
  induction h with
  | nil c => exact hc
  | cons hagain _ _ ih => exact ih (separatedRound_movesOn hp hseparator hc hagain)

/-- The rounds of the list are those of the backtracking form. -/
theorem chain_separatedRound_iff (hp : p.MovesOn) (hseparator : separator.MovesOn)
    (hround : RoundsAdvance p separator) (hc : Cursor.Reached source c) {values : List α} :
    Chain (separatedRound p separator) c values n ↔
      ∃ pairs, Chain (manyRound (separator.pair p)) c pairs n ∧ values = pairs.map Prod.snd :=
  chain_iff_of_rounds (fun _ _ _ hd => separatedRound_eq_again_iff_many hround hd)
    (fun _ _ _ hd => separatedRound_movesOn hp hseparator hd) hc

/-! ## The whole list -/

/-- An item and then, as often as possible, a separator and an item. -/
theorem backtracking_eq_done_iff {first : α} {pairs : List (β × α)} :
    p.pair (separator.pair p).many c = .done (first, pairs) n ↔
      ∃ m, p c = .done first m ∧ Chain (manyRound (separator.pair p)) m pairs n ∧
        manyRound (separator.pair p) n = .stop := by
  rw [pair_eq_done_iff]
  constructor
  · intro h
    obtain ⟨m, hfirst, hmany⟩ := h
    obtain ⟨further, hchain, hstop, rfl⟩ := rounds_eq_done_iff.mp hmany
    exact ⟨m, hfirst, hchain, hstop⟩
  · intro h
    obtain ⟨m, hfirst, hchain, hstop⟩ := h
    exact ⟨m, hfirst, rounds_eq_done_iff.mpr ⟨pairs, hchain, hstop, rfl⟩⟩

theorem separatedList_eq_done_iff {values : List α} :
    p.separatedList separator c = .done values n ↔
      ∃ first m further, p c = .done first m ∧ Chain (separatedRound p separator) m further n ∧
        (∃ failure, separator n = .failed failure) ∧ values = first :: further := by
  rw [separatedList, andThen_eq_done_iff]
  constructor
  · intro h
    obtain ⟨first, m, hfirst, hrounds⟩ := h
    obtain ⟨further, hchain, hstop, rfl⟩ := rounds_eq_done_iff.mp hrounds
    exact ⟨first, m, further, hfirst, hchain, separatedRound_eq_stop_iff.mp hstop, rfl⟩
  · intro h
    obtain ⟨first, m, further, hfirst, hchain, hstop, rfl⟩ := h
    exact ⟨first, m, hfirst, rounds_eq_done_iff.mpr
      ⟨further, hchain, separatedRound_eq_stop_iff.mpr hstop, rfl⟩⟩

theorem separatedList_eq_failed_iff {failure : Failure} :
    p.separatedList separator c = .failed failure ↔
      p c = .failed failure ∨
        ∃ first m further n b behind, p c = .done first m ∧
          Chain (separatedRound p separator) m further n ∧ separator n = .done b behind ∧
            p behind = .failed failure := by
  rw [separatedList, andThen_eq_failed_iff]
  simp only [rounds_eq_failed_iff, separatedRound_eq_failed_iff]
  constructor
  · intro h
    rcases h with hfirst | ⟨first, m, hfirst, further, n, hchain, b, behind, hfailed⟩
    · exact Or.inl hfirst
    · exact Or.inr ⟨first, m, further, n, b, behind, hfirst, hchain, hfailed⟩
  · intro h
    rcases h with hfirst | ⟨first, m, further, n, b, behind, hfirst, hchain, hfailed⟩
    · exact Or.inl hfirst
    · exact Or.inr ⟨first, m, hfirst, further, n, hchain, b, behind, hfailed⟩

/-- Where the backtracking form succeeds, the rounds of the list have come to the
same place through the same values. -/
theorem chain_of_backtracking (hp : p.MovesOn) (hseparator : separator.MovesOn)
    (hround : RoundsAdvance p separator) (hc : Cursor.Reached source c) {first : α}
    {pairs : List (β × α)} (hform : p.pair (separator.pair p).many c = .done (first, pairs) n) :
    ∃ m, p c = .done first m ∧
      Chain (separatedRound p separator) m (pairs.map Prod.snd) n ∧ Cursor.Reached source n := by
  obtain ⟨m, hfirst, hpairs, -⟩ := backtracking_eq_done_iff.mp hform
  have hm := (hp hc hfirst).1
  have hchain := (chain_separatedRound_iff hp hseparator hround hm).mpr ⟨pairs, hpairs, rfl⟩
  exact ⟨m, hfirst, hchain, hchain.reached hp hseparator hm⟩

/-- Where the rounds of the list have come to a place at which no further round
can go on, the backtracking form succeeds. -/
theorem backtracking_of_chain (hp : p.MovesOn) (hseparator : separator.MovesOn)
    (hround : RoundsAdvance p separator) (hc : Cursor.Reached source c) {first : α} {m : Cursor}
    {values : List α} (hfirst : p c = .done first m)
    (hchain : Chain (separatedRound p separator) m values n)
    (hstops : ∃ failure, separator n = .failed failure ∨
      ∃ b behind, separator n = .done b behind ∧ p behind = .failed failure) :
    ∃ pairs, p.pair (separator.pair p).many c = .done (first, pairs) n ∧
      values = pairs.map Prod.snd := by
  have hm := (hp hc hfirst).1
  have hn := hchain.reached hp hseparator hm
  obtain ⟨pairs, hpairs, hvalues⟩ := (chain_separatedRound_iff hp hseparator hround hm).mp hchain
  have hstop := (manyRound_pair_eq_stop_iff hround hn).mpr hstops
  exact ⟨pairs, backtracking_eq_done_iff.mpr ⟨m, hfirst, hpairs, hstop⟩, hvalues⟩

/-- Where a separator stands behind the last item of the backtracking form, no
item stands behind it, and the list fails as that item does. -/
theorem separatedList_failed_of_separator (hp : p.MovesOn) (hseparator : separator.MovesOn)
    (hround : RoundsAdvance p separator) (hc : Cursor.Reached source c) {first : α}
    {pairs : List (β × α)} {b : β} {behind : Cursor}
    (hform : p.pair (separator.pair p).many c = .done (first, pairs) n)
    (hb : separator n = .done b behind) :
    ∃ failure, p behind = .failed failure ∧ p.separatedList separator c = .failed failure := by
  obtain ⟨m, hfirst, hchain, hn⟩ := chain_of_backtracking hp hseparator hround hc hform
  obtain ⟨_, -, -, hstop⟩ := backtracking_eq_done_iff.mp hform
  obtain ⟨failure, hnone | ⟨b', behind', hb', hitem⟩⟩ :=
    (manyRound_pair_eq_stop_iff hround hn).mp hstop
  · exact absurd (hb.symm.trans hnone) (by simp)
  · obtain ⟨rfl, rfl⟩ := Outcome.done.inj (hb.symm.trans hb')
    refine ⟨failure, hitem, separatedList_eq_failed_iff.mpr (Or.inr ?_)⟩
    exact ⟨first, m, _, n, b, behind, hfirst, hchain, hb, hitem⟩

/-- A list with separators is its backtracking form where no separator stands
behind the last item.  Where one does, the list fails as the item behind it, and
where the first item fails both fail as it does; so the list fails nowhere
else. -/
theorem separatedList_iff_backtracking (hp : p.MovesOn) (hseparator : separator.MovesOn)
    (hround : RoundsAdvance p separator) (hc : Cursor.Reached source c) :
    (∀ values n, p.separatedList separator c = .done values n ↔
      ∃ first pairs, p.pair (separator.pair p).many c = .done (first, pairs) n ∧
        values = first :: pairs.map Prod.snd ∧ ∃ failure, separator n = .failed failure) ∧
    (∀ first pairs n b behind, p.pair (separator.pair p).many c = .done (first, pairs) n →
      separator n = .done b behind →
        ∃ failure, p behind = .failed failure ∧
          p.separatedList separator c = .failed failure) ∧
    (∀ failure, p c = .failed failure →
      p.separatedList separator c = .failed failure ∧
        p.pair (separator.pair p).many c = .failed failure) ∧
    ∀ failure, p.separatedList separator c = .failed failure →
      p c = .failed failure ∨
        ∃ first pairs n b behind, p.pair (separator.pair p).many c = .done (first, pairs) n ∧
          separator n = .done b behind ∧ p behind = .failed failure := by
  refine ⟨fun values n => ?_, fun first pairs n b behind => ?_, fun failure hfirst => ?_,
    fun failure hfailed => ?_⟩
  · rw [separatedList_eq_done_iff]
    constructor
    · intro h
      obtain ⟨first, m, further, hfirst, hchain, ⟨failure, hnone⟩, rfl⟩ := h
      obtain ⟨pairs, hform, rfl⟩ := backtracking_of_chain hp hseparator hround hc hfirst hchain
        ⟨failure, Or.inl hnone⟩
      exact ⟨first, pairs, hform, rfl, failure, hnone⟩
    · intro h
      obtain ⟨first, pairs, hform, rfl, hnone⟩ := h
      obtain ⟨m, hfirst, hchain, -⟩ := chain_of_backtracking hp hseparator hround hc hform
      exact ⟨first, m, _, hfirst, hchain, hnone, rfl⟩
  · exact separatedList_failed_of_separator hp hseparator hround hc
  · exact ⟨separatedList_eq_failed_iff.mpr (Or.inl hfirst),
      pair_eq_failed_iff.mpr (Or.inl hfirst)⟩
  · rcases separatedList_eq_failed_iff.mp hfailed with
      hfirst | ⟨first, m, further, n, b, behind, hfirst, hchain, hb, hitem⟩
    · exact Or.inl hfirst
    · obtain ⟨pairs, hform, -⟩ := backtracking_of_chain hp hseparator hround hc hfirst hchain
        ⟨failure, Or.inr ⟨b, behind, hb, hitem⟩⟩
      exact Or.inr ⟨first, pairs, n, b, behind, hform, hb, hitem⟩

end

/-- Digits with commas between them and a comma too many: the backtracking form
leaves that comma, and the list fails behind it. -/
theorem separatedList_iff_backtracking_last_comma :
    let digit := satisfy Char.isDigit "digit"
    let c := Cursor.start "1,2,x"
    let n : Cursor := { source := "1,2,x", position := 3, byteOffset := 3, rest := [',', 'x'] }
    digit.pair ((char ',').pair digit).many c = .done ('1', [(',', '2')]) n ∧
      ∃ failure, digit (n.advance [',']) = .failed failure ∧
        digit.separatedList (char ',') c = .failed failure := by
  intro digit c n
  have hdigit : digit.Yields fun text ch => text = [ch] ∧ ch.isDigit = true :=
    yields_expecting _ _
  have hround : RoundsAdvance digit (char ',') := by
    intro source c m n comma ch hc hcomma hch
    obtain ⟨text, hreads, rfl⟩ := yields_char ',' hc.standsIn.placed hcomma
    obtain ⟨-, hle⟩ := hdigit.movesOn (hc.reads hreads) hch
    have hposition := hreads.position_eq
    rw [List.length_singleton] at hposition
    omega
  have hform : digit.pair ((char ',').pair digit).many c = .done ('1', [(',', '2')]) n := by
    decide +kernel
  have hcomma : char ',' n = .done ',' (n.advance [',']) := by
    decide +kernel
  exact ⟨hform, (separatedList_iff_backtracking hdigit.movesOn (yields_char ',').movesOn hround
    .start).2.1 _ _ _ _ _ hform hcomma⟩

end Parser

end JsonGrammar
