import JsonGrammar.Proofs.Parser.Settling

/-!
# Two runs side by side

A `Coupling` says which cursors and which failures of two runs belong together.
It also allows the first run to fail where the second goes on: the failure is
then outrun by every cursor that the second run comes to.

`Parser.Coupled K p q` says that from cursors that belong together `p` and `q`
have outcomes that belong together, with the same value where both succeed,
and that `q` keeps ahead of a failure that is outrun already.  The combinators
hand it on from their parts.  Choice and loops need to know that the parser
they decide by does not fail in the first run alone (`Lockstep`).
-/

namespace JsonGrammar

/-- What belongs together in two runs.  Cursors that do have the same rest and
stay together when both read on. -/
structure Coupling where
  cursors : Cursor → Cursor → Prop
  failures : Failure → Failure → Prop
  /-- The first run has failed, and the second has come to the cursor. -/
  outrun : Failure → Cursor → Prop
  placed : ∀ {c d}, cursors c d → c.Placed ∧ d.Placed
  rest_eq : ∀ {c d}, cursors c d → c.rest = d.rest
  position_eq_iff : ∀ {c d n m}, cursors c d → cursors n m →
    (n.position = c.position ↔ m.position = d.position)
  advance : ∀ {c d text rest}, cursors c d → c.rest = text ++ rest →
    cursors (c.advance text) (d.advance text)
  raise : ∀ {c d} cause, cursors c d → failures (Failure.raise c cause) (Failure.raise d cause)
  outrun_placed : ∀ {failure d}, outrun failure d → d.Placed
  outrun_reads : ∀ {failure d text n}, outrun failure d → d.Reads text n → outrun failure n
  outrun_at : ∀ {failure d later}, outrun failure d → later.At d → failures failure later

namespace Coupling

variable {K : Coupling} {c d : Cursor}

theorem bytesLeft_eq (h : K.cursors c d) : c.bytesLeft = d.bytesLeft := by
  obtain ⟨hc, hd⟩ := K.placed h
  rw [hc.bytesLeft_eq, hd.bytesLeft_eq, K.rest_eq h]

/-- The first run never fails alone. -/
def Strict (K : Coupling) : Prop :=
  ∀ failure d, ¬ K.outrun failure d

/-- Two runs that are at one and the same cursor as long as both go on. -/
def together (failures : Failure → Failure → Prop) (outrun : Failure → Cursor → Prop)
    (hrefl : ∀ failure, failures failure failure)
    (hreads : ∀ {failure d text n}, outrun failure d → d.Reads text n → outrun failure n)
    (hat : ∀ {failure d later}, outrun failure d → later.At d → failures failure later) :
    Coupling where
  cursors := fun c d => c.Placed ∧ d = c
  failures := failures
  outrun := fun failure d => d.Placed ∧ outrun failure d
  placed := fun h => ⟨h.1, h.2 ▸ h.1⟩
  rest_eq := fun h => h.2 ▸ rfl
  position_eq_iff := fun h hnext => by rw [h.2, hnext.2]
  advance := fun h hrest => ⟨Cursor.placed_advance h.1 hrest, h.2 ▸ rfl⟩
  raise := fun _ h => h.2 ▸ hrefl _
  outrun_placed := And.left
  outrun_reads := fun h hnext => ⟨hnext.placed h.1, hreads h.2 hnext⟩
  outrun_at := fun h => hat h.2

end Coupling

/-- Two outcomes belong together. -/
inductive Outcome.Coupled {α : Type} (K : Coupling) : Outcome α → Outcome α → Prop where
  | done {a : α} {n m : Cursor} (h : K.cursors n m) : Coupled K (.done a n) (.done a m)
  | failed {failure later : Failure} (h : K.failures failure later) :
      Coupled K (.failed failure) (.failed later)
  | outrun {failure : Failure} {a : α} {m : Cursor} (h : K.outrun failure m) :
      Coupled K (.failed failure) (.done a m)
  | stuck : Coupled K .stuck .stuck

/-- Two rounds belong together, the second of them from `d`. -/
inductive Round.Coupled {α : Type} (K : Coupling) (d : Cursor) : Round α → Round α → Prop where
  | again {a : α} {n m : Cursor} (h : K.cursors n m) : Coupled K d (.again a n) (.again a m)
  | stop : Coupled K d .stop .stop
  | failed {failure later : Failure} (h : K.failures failure later) :
      Coupled K d (.failed failure) (.failed later)
  | outrun {failure : Failure} {a : α} {m : Cursor} (h : K.outrun failure m)
      (hcloser : m.bytesLeft < d.bytesLeft) : Coupled K d (.failed failure) (.again a m)
  | ended {failure : Failure} (h : K.outrun failure d) : Coupled K d (.failed failure) .stop
  | stuck : Coupled K d .stuck .stuck

variable {α β γ : Type} {K : Coupling}

theorem Outcome.Coupled.andThen {first second : Outcome α}
    {continuation continuation' : α → Cursor → Outcome β} (h : first.Coupled K second)
    (hrun : ∀ a n m, K.cursors n m → (continuation a n).Coupled K (continuation' a m))
    (hfollow : ∀ a failure m, K.outrun failure m →
      (Outcome.failed failure).Coupled K (continuation' a m)) :
    (first.andThen continuation).Coupled K (second.andThen continuation') := by
  cases h with
  | done hnext => exact hrun _ _ _ hnext
  | failed hfailures => exact .failed hfailures
  | outrun hnext => exact hfollow _ _ _ hnext
  | stuck => exact .stuck

namespace Parser

/-- From cursors that belong together the two parsers have outcomes that do,
and the second parser keeps ahead of a failure of the first run. -/
structure Coupled (K : Coupling) (p q : Parser α) : Prop where
  run : ∀ ⦃c d : Cursor⦄, K.cursors c d → (p c).Coupled K (q d)
  follow : ∀ ⦃failure : Failure⦄ ⦃d : Cursor⦄, K.outrun failure d →
    (Outcome.failed failure).Coupled K (q d)

/-- Where the first parser fails the second one does not succeed. -/
def Lockstep (K : Coupling) (p : Parser α) (q : Parser β) : Prop :=
  ∀ ⦃c d m : Cursor⦄ ⦃failure : Failure⦄ ⦃b : β⦄, K.cursors c d → p c = .failed failure →
    q d ≠ .done b m

/-- A parser that settles keeps ahead of a failure that is outrun. -/
theorem Settles.follow {q : Parser α} (hq : q.Settles) {failure : Failure} {d : Cursor}
    (h : K.outrun failure d) : (Outcome.failed failure).Coupled K (q d) := by
  have hd := K.outrun_placed h
  cases hrun : q d with
  | done b m =>
      obtain ⟨text, hreads, -⟩ := hq.keepsPlace.yields hd hrun
      exact .outrun (K.outrun_reads h hreads)
  | failed later =>
      obtain ⟨text, m, hreads, hat, -⟩ := hq.keepsPlace.blames hd hrun
      exact .failed (K.outrun_at (K.outrun_reads h hreads) hat)
  | stuck => exact absurd hrun (hq.ne_stuck hd)

/-! ## Sequence and choice -/

theorem coupled_succeed (value : α) : Coupled K (succeed value) (succeed value) where
  run := fun _ _ h => .done h
  follow := fun _ _ h => .outrun h

section

variable {p q p' q' : Parser α}

theorem Coupled.andThen {continuation continuation' : α → Parser β} (hp : Coupled K p p')
    (hcontinuation : ∀ a, Coupled K (continuation a) (continuation' a)) :
    Coupled K (p.andThen continuation) (p'.andThen continuation') where
  run := fun _ _ h => (hp.run h).andThen (fun a _ _ hnext => (hcontinuation a).run hnext)
    fun a _ _ hnext => (hcontinuation a).follow hnext
  follow := by
    intro failure d h
    rw [← Outcome.andThen_failed failure continuation]
    exact (hp.follow h).andThen (fun a _ _ hnext => (hcontinuation a).run hnext)
      fun a _ _ hnext => (hcontinuation a).follow hnext

theorem Coupled.map (hp : Coupled K p p') (f : α → β) : Coupled K (p.map f) (p'.map f) :=
  hp.andThen fun a => coupled_succeed (f a)

theorem Coupled.pair {r r' : Parser β} (hp : Coupled K p p') (hr : Coupled K r r') :
    Coupled K (p.pair r) (p'.pair r') :=
  hp.andThen fun a => hr.map fun b => (a, b)

theorem Coupled.thenSkip {r r' : Parser β} (hp : Coupled K p p') (hr : Coupled K r r') :
    Coupled K (p.thenSkip r) (p'.thenSkip r') :=
  hp.andThen fun a => hr.map fun _ => a

theorem Coupled.skipThen {r r' : Parser β} (hp : Coupled K p p') (hr : Coupled K r r') :
    Coupled K (p.skipThen r) (p'.skipThen r') :=
  hp.andThen fun _ => hr

theorem Coupled.between {opening opening' : Parser β} {closing closing' : Parser γ}
    (hopening : Coupled K opening opening') (hp : Coupled K p p')
    (hclosing : Coupled K closing closing') :
    Coupled K (between opening p closing) (between opening' p' closing') :=
  hopening.skipThen (hp.thenSkip hclosing)

theorem Coupled.orElse (hp : Coupled K p p') (hlockstep : Lockstep K p p')
    (hq : Coupled K q q') : Coupled K (p.orElse q) (p'.orElse q') where
  run := by
    intro c d h
    have hrun := hp.run h
    unfold Parser.orElse
    generalize hfirst : p c = first at hrun
    generalize hsecond : p' d = second at hrun
    cases hrun with
    | done hnext => exact .done hnext
    | failed _ => exact hq.run h
    | outrun _ => exact absurd hsecond (hlockstep h hfirst)
    | stuck => exact .stuck
  follow := by
    intro failure d h
    have hfollow := hp.follow h
    unfold Parser.orElse
    generalize p' d = second at hfollow
    cases hfollow with
    | failed _ => exact hq.follow h
    | outrun hnext => exact .outrun hnext

end

theorem coupled_inTurn {ps : List (Parser α)} (hps : ∀ p ∈ ps, Coupled K p p) :
    Coupled K (inTurn ps) (inTurn ps) := by
  induction ps with
  | nil => exact coupled_succeed []
  | cons p ps ih =>
      have hthen : Coupled K (inTurn ps) (inTurn ps) :=
        ih fun q hq => hps q (List.mem_cons_of_mem p hq)
      exact (hps p List.mem_cons_self).andThen fun first => hthen.map (first :: ·)

/-! ## Loops -/

/-- From cursors that belong together the two rounds do, and the second one
keeps ahead of a failure of the first run. -/
structure RoundCoupled (K : Coupling) (round round' : Cursor → Round α) : Prop where
  run : ∀ ⦃c d : Cursor⦄, K.cursors c d → (round c).Coupled K d (round' d)
  follow : ∀ ⦃failure : Failure⦄ ⦃d : Cursor⦄, K.outrun failure d →
    (Round.failed failure).Coupled K d (round' d)

theorem RoundCoupled.rounds_follow {round round' : Cursor → Round α}
    (h : RoundCoupled K round round') (taken : List α) {failure : Failure} {d : Cursor}
    (hd : K.outrun failure d) :
    (Outcome.failed failure).Coupled K (rounds round' taken d) := by
  fun_induction rounds round' taken d with
  | case1 taken d hstop => exact .outrun hd
  | case2 taken d later hfailed =>
      have hround := h.follow hd
      rw [hfailed] at hround
      cases hround with
      | failed hfailures => exact .failed hfailures
  | case3 taken d hstuck =>
      have hround := h.follow hd
      rw [hstuck] at hround
      cases hround
  | case4 taken d value next hagain hcloser ih =>
      have hround := h.follow hd
      rw [hagain] at hround
      cases hround with
      | outrun hnext _ => exact ih hnext
  | case5 taken d value next hagain hfar =>
      have hround := h.follow hd
      rw [hagain] at hround
      cases hround with
      | outrun _ hcloser => exact absurd hcloser hfar

/-- Two loops go round together, until both are over or the first one fails. -/
theorem RoundCoupled.rounds {round round' : Cursor → Round α} (h : RoundCoupled K round round')
    (taken : List α) : Coupled K (rounds round taken) (rounds round' taken) where
  follow := fun _ _ hd => h.rounds_follow taken hd
  run := by
    intro c d hcursors
    fun_induction Parser.rounds round taken c generalizing d with
    | case1 taken c hstop =>
        have hround := h.run hcursors
        rw [Parser.rounds.eq_def round']
        generalize round' d = second at hround
        rw [hstop] at hround
        cases hround with
        | stop => exact .done hcursors
    | case2 taken c failure hfailed =>
        have hround := h.run hcursors
        rw [Parser.rounds.eq_def round']
        generalize round' d = second at hround
        rw [hfailed] at hround
        cases hround with
        | failed hfailures => exact .failed hfailures
        | outrun hnext hcloser =>
            simp only [if_pos hcloser]
            exact h.rounds_follow _ hnext
        | ended hd => exact .outrun hd
    | case3 taken c hstuck =>
        have hround := h.run hcursors
        rw [Parser.rounds.eq_def round']
        generalize round' d = second at hround
        rw [hstuck] at hround
        cases hround with
        | stuck => exact .stuck
    | case4 taken c value next hagain hcloser ih =>
        have hround := h.run hcursors
        rw [Parser.rounds.eq_def round']
        generalize round' d = second at hround
        rw [hagain] at hround
        cases hround with
        | again hnext =>
            rw [Coupling.bytesLeft_eq hcursors, Coupling.bytesLeft_eq hnext] at hcloser
            simp only [if_pos hcloser]
            exact ih hnext
    | case5 taken c value next hagain hfar =>
        have hround := h.run hcursors
        rw [Parser.rounds.eq_def round']
        generalize round' d = second at hround
        rw [hagain] at hround
        cases hround with
        | again hnext =>
            rw [Coupling.bytesLeft_eq hcursors, Coupling.bytesLeft_eq hnext] at hfar
            simp only [if_neg hfar]
            exact .stuck

section

variable {p p' : Parser α}

theorem Coupled.many (hp : Coupled K p p') (hK : K.Strict) : Coupled K p.many p'.many := by
  refine RoundCoupled.rounds ⟨fun c d h => ?_, fun failure d h => absurd h (hK failure d)⟩ []
  have hrun := hp.run h
  unfold manyRound
  generalize p c = first at hrun
  generalize p' d = second at hrun
  cases hrun with
  | @done a n m hnext =>
      have hiff := K.position_eq_iff h hnext
      by_cases hstay : n.position = c.position
      · simp only [hstay, hiff.mp hstay, ↓reduceIte]
        exact .stop
      · simp only [hstay, mt hiff.mpr hstay, ↓reduceIte]
        exact .again hnext
  | failed _ => exact .stop
  | outrun hnext => exact absurd hnext (hK _ _)
  | stuck => exact .stuck

/-- What a round with a separator decides is what its item decides.  Where the
second run goes on alone it has to come closer to the end. -/
theorem Round.coupled_ofOutcome {first second : Outcome α} {d : Cursor}
    (h : first.Coupled K second)
    (hcloser : ∀ failure a m, K.outrun failure m → second = .done a m →
      m.bytesLeft < d.bytesLeft) :
    (Round.ofOutcome first).Coupled K d (.ofOutcome second) := by
  cases h with
  | done hnext => exact .again hnext
  | failed hfailures => exact .failed hfailures
  | outrun hnext => exact .outrun hnext (hcloser _ _ _ hnext rfl)
  | stuck => exact .stuck

theorem Coupled.separatedRound {separator separator' : Parser β} (hp : Coupled K p p')
    (hseparator : Coupled K separator separator') (hlockstep : Lockstep K separator separator')
    (hcloser : ∀ failure b a d n m, d.Placed → K.outrun failure m → separator' d = .done b n →
      p' n = .done a m → m.bytesLeft < d.bytesLeft) :
    RoundCoupled K (separatedRound p separator) (separatedRound p' separator') where
  run := by
    intro c d h
    have hrun := hseparator.run h
    unfold Parser.separatedRound
    generalize hfirst : separator c = first at hrun
    generalize hsecond : separator' d = second at hrun
    cases hrun with
    | done hnext =>
        exact Round.coupled_ofOutcome (hp.run hnext) fun failure a m hm hitem =>
          hcloser failure _ a d _ m (K.placed h).2 hm hsecond hitem
    | failed _ => exact .stop
    | outrun _ => exact absurd hsecond (hlockstep h hfirst)
    | stuck => exact .stuck
  follow := by
    intro failure d h
    have hfollow := hseparator.follow h
    unfold Parser.separatedRound
    generalize hsecond : separator' d = second at hfollow
    cases hfollow with
    | failed _ => exact .ended h
    | outrun hnext =>
        exact Round.coupled_ofOutcome (hp.follow hnext) fun failure a m hm hitem =>
          hcloser failure _ a d _ m (K.outrun_placed h) hm hsecond hitem

/-- Two lists with separators.  Where the second run goes on alone each of its
rounds has to come closer to the end. -/
theorem Coupled.separatedList {separator separator' : Parser β} (hp : Coupled K p p')
    (hseparator : Coupled K separator separator') (hlockstep : Lockstep K separator separator')
    (hcloser : ∀ failure b a d n m, d.Placed → K.outrun failure m → separator' d = .done b n →
      p' n = .done a m → m.bytesLeft < d.bytesLeft) :
    Coupled K (p.separatedList separator) (p'.separatedList separator') :=
  hp.andThen fun first => (hp.separatedRound hseparator hlockstep hcloser).rounds [first]

end

end Parser

end JsonGrammar
