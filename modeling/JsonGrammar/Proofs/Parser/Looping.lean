import JsonGrammar.Proofs.Parser.Contract

/-!
# Loops as they run

`LoopRun round taken c attempts outcome` says that a loop which is at `c` with
the values `taken` asks for a round `attempts` times and is then over with the
outcome.  Unlike `rounds` it asks nothing of a round that goes on, and so a
loop that goes round for ever has no run.

A loop has at most one run (`LoopRun.unique`).  Where each round that goes on
has read something there is one, with the outcome of `rounds`, and no more
rounds go on than characters are left (`exists_loopRun`).
-/

namespace JsonGrammar

namespace Parser

variable {α β : Type}

/-- The loop asks for a round so many times, each time where the round before
has stopped, and the last round ends it. -/
inductive LoopRun (round : Cursor → Round α) :
    List α → Cursor → Nat → Outcome (List α) → Prop where
  | stop {taken : List α} {c : Cursor} (hround : round c = .stop) :
      LoopRun round taken c 1 (.done taken.reverse c)
  | failed {taken : List α} {c : Cursor} {failure : Failure} (hround : round c = .failed failure) :
      LoopRun round taken c 1 (.failed failure)
  | again {taken : List α} {c next : Cursor} {value : α} {attempts : Nat}
      {outcome : Outcome (List α)} (hround : round c = .again value next)
      (hthen : LoopRun round (value :: taken) next attempts outcome) :
      LoopRun round taken c (attempts + 1) outcome

variable {round : Cursor → Round α}

theorem LoopRun.ne_stuck {taken : List α} {c : Cursor} {attempts : Nat}
    {outcome : Outcome (List α)} (h : LoopRun round taken c attempts outcome) :
    outcome ≠ .stuck := by
  induction h with
  | stop _ => simp
  | failed _ => simp
  | again _ _ ih => exact ih

/-- What a loop does is settled by its rounds. -/
theorem LoopRun.unique {taken : List α} {c : Cursor} {attempts attempts' : Nat}
    {outcome outcome' : Outcome (List α)} (h : LoopRun round taken c attempts outcome)
    (h' : LoopRun round taken c attempts' outcome') :
    attempts' = attempts ∧ outcome' = outcome := by
  induction h generalizing attempts' outcome' with
  | stop hround =>
      cases h' with
      | stop _ => exact ⟨rfl, rfl⟩
      | failed hround' => simp [hround] at hround'
      | again hround' _ => simp [hround] at hround'
  | failed hround =>
      cases h' with
      | stop hround' => simp [hround] at hround'
      | failed hround' =>
          rw [hround] at hround'
          obtain rfl := Round.failed.inj hround'
          exact ⟨rfl, rfl⟩
      | again hround' _ => simp [hround] at hround'
  | again hround _ ih =>
      cases h' with
      | stop hround' => simp [hround] at hround'
      | failed hround' => simp [hround] at hround'
      | again hround' hthen =>
          rw [hround] at hround'
          obtain ⟨rfl, rfl⟩ := Round.again.inj hround'
          obtain ⟨rfl, rfl⟩ := ih hthen
          exact ⟨rfl, rfl⟩

/-- A loop whose rounds read something comes to its end, and each round that
goes on takes at least one of the characters that are left. -/
theorem exists_loopRun {A : Reading α} (hyields : RoundYields round A)
    (hne : ∀ text a, A text a → text ≠ [])
    (hround : ∀ ⦃c : Cursor⦄, c.Placed → round c ≠ .stuck) (taken : List α) {c : Cursor}
    (hc : c.Placed) :
    ∃ completed, completed ≤ c.rest.length ∧
      LoopRun round taken c (completed + 1) (rounds round taken c) := by
  fun_induction rounds round taken c with
  | case1 taken c hstop => exact ⟨0, Nat.zero_le _, .stop hstop⟩
  | case2 taken c failure hfailed => exact ⟨0, Nat.zero_le _, .failed hfailed⟩
  | case3 taken c hstuck => exact absurd hstuck (hround hc)
  | case4 taken c value next hagain hcloser ih =>
      obtain ⟨text, hreads, htext⟩ := hyields hc hagain
      obtain ⟨completed, hle, hrun⟩ := ih (hreads.placed hc)
      refine ⟨completed + 1, ?_, .again hagain hrun⟩
      have hpos : 0 < text.length := List.length_pos_iff.mpr (hne text value htext)
      rw [hreads.rest_eq, List.length_append]
      omega
  | case5 taken c value next hagain hfar =>
      obtain ⟨text, hreads, htext⟩ := hyields hc hagain
      exact absurd (hreads.bytesLeft_lt hc (hne text value htext)) hfar

/-- The one run of a loop whose rounds read something. -/
theorem exists_loopRun_iff {A : Reading α} (hyields : RoundYields round A)
    (hne : ∀ text a, A text a → text ≠ [])
    (hround : ∀ ⦃c : Cursor⦄, c.Placed → round c ≠ .stuck) (taken : List α) {c : Cursor}
    (hc : c.Placed) :
    ∃ completed, completed ≤ c.rest.length ∧ ∀ attempts outcome,
      LoopRun round taken c attempts outcome ↔
        attempts = completed + 1 ∧ outcome = rounds round taken c := by
  obtain ⟨completed, hle, hrun⟩ := exists_loopRun hyields hne hround taken hc
  refine ⟨completed, hle, fun attempts outcome => ⟨fun h => hrun.unique h, fun h => ?_⟩⟩
  obtain ⟨rfl, rfl⟩ := h
  exact hrun

end Parser

end JsonGrammar
