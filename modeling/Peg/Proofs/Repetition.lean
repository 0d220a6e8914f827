/-
  Peg.Proofs.Repetition

  A repetition without an upper bound ends with the first round that takes nothing,
  and does not ask whether there are enough values yet; a repetition that is told how
  often goes on. So one may match where the other fails: this is the case exactly
  where a round before the last one that is needed takes nothing (`Stalls`). Up to
  there both run the same rounds, and behind them the one without a bound only moves
  on, as long as there is no commit point that could put a failure on record.
-/
import Peg.Proofs.CursorSafety
import Peg.Proofs.FurthestFailure
import Peg.Proofs.Skipping
import Peg.Proofs.Tracking

namespace Peg

open Text

variable {env : Env} {p : Grammar} {ctx : Ctx} {st st1 st' : State} {v : Value} {n : Nat}

-- ============================================================================
-- Rounds
-- ============================================================================

/-- Some round takes nothing, of so many in a row from the state, and it is not the last of them. -/
inductive Stalls (env : Env) (p : Grammar) (ctx : Ctx) : Nat → State → Prop where
  | here {n : Nat} {st st1 : State} {v : Value} (h : Answers env p ctx st (.matched v st1))
      (hstay : st1.offset = st.offset) : Stalls env p ctx (n + 2) st
  | later {n : Nat} {st st1 : State} {v : Value} (h : Answers env p ctx st (.matched v st1))
      (hrest : Stalls env p ctx n st1) : Stalls env p ctx (n + 1) st

theorem not_stalls_zero : ¬ Stalls env p ctx 0 st := by
  intro h
  cases h

theorem not_stalls_one : ¬ Stalls env p ctx 1 st := by
  intro h
  cases h with
  | later _ hrest => exact not_stalls_zero hrest

/-- After a first round that takes something, the others have to stall. -/
theorem stalls_succ_iff (h : Answers env p ctx st (.matched v st1))
    (hmoves : st1.offset ≠ st.offset) : Stalls env p ctx (n + 1) st ↔ Stalls env p ctx n st1 := by
  constructor
  · intro hstalls
    cases hstalls with
    | here h' hstay =>
      cases h.unique h'
      exact absurd hstay hmoves
    | later h' hrest =>
      cases h.unique h'
      exact hrest
  · exact .later h

/-- Without commit points, in the bodies of rules either, nothing is recorded. -/
theorem NeverRecords.of_uncommitted (henv : env.Under uncommitted) (hctx : ctx.Under uncommitted)
    (hp : uncommitted.node p) : NeverRecords env p ctx := by
  intro q ctx' hcomes
  cases ht : ctx'.tracking with
  | false => rfl
  | true =>
    have hq : (Grammar.expect q).isExpect = false :=
      Grammar.All.self (hcomes.under_of_tracked henv hp hctx ht)
    cases hq

/-- A round leads onward or back, and leaves what is on record. -/
def Round (t : Text) (halt : Halt → Prop) (st : State) : Post :=
  ⟨fun _ st1 => st.Onward t st1 ∧ st1.failure = st.failure,
    fun st1 => (st1.Sound t ∧ st1.cursor = st.cursor) ∧ st1.failure = st.failure, halt⟩

/-- A parser that records nothing makes such rounds. -/
theorem answer_round (hp : NeverRecords env p ctx) {halt : Halt → Prop} (hs : st.Sound env.source)
    (hhalt : ∀ hlt, answer env p ctx st = .stopped hlt → halt hlt) :
    (answer env p ctx st).Meets (Round env.source halt st) := by
  have hrun (o : Outcome) (ho : Answers env p ctx st o) :
      o.Meets (Stays env.source (Halt.OnBoundary env.source) st) ∧
        o.state.failure = st.failure := by
    obtain ⟨-, m, rfl⟩ := ho
    exact ⟨(parse_leads env m p ctx st hs).stays, hp.failure_eq m st⟩
  cases ho : answer env p ctx st with
  | matched v st1 => exact hrun _ (answers_matched_iff.mpr ho)
  | failed st1 => exact hrun _ (answers_failed_iff.mpr ho)
  | stopped hlt => exact hhalt hlt ho

-- ============================================================================
-- The two loops
-- ============================================================================

namespace Node

/-- Rounds that lead onward and record nothing, until one of them misses or takes nothing. -/
theorem repeatLoop_round {t : Text} {halt : Halt → Prop} {q : Step} {vs : List Value}
    (hq : ∀ st1, st.Onward t st1 → (q st1).Meets (Round t halt st1)) (h : Looping t st n st) :
    Settles (repeatLoop q n vs st)
      (fun r => st.Onward t r.2 ∧ vs.length ≤ r.1.length ∧ r.2.failure = st.failure) halt := by
  refine repeatLoop_settles
    (fun k ws st1 => Looping t st k st1 ∧ vs.length ≤ ws.length ∧ st1.failure = st.failure)
    (fun _ _ h1 => absurd h1.1 Looping.not_spent) (fun k ws st1 h1 => ?_) n vs st
    ⟨h, Nat.le_refl _, rfl⟩
  obtain ⟨hloop, hlen, hfailure⟩ := h1
  refine (hq st1 hloop.onward).mono (fun w st2 h2 => ?_) (fun st2 h2 => ?_) (fun _ hh => hh)
  · have hlen' : vs.length ≤ (w :: ws).length := Nat.le_succ_of_le hlen
    have hnext := hloop.next h2.1
    exact ⟨fun hstay => ⟨hnext.1 hstay, hlen', h2.2.trans hfailure⟩,
      fun hmoves => ⟨hnext.2 hmoves, hlen', h2.2.trans hfailure⟩⟩
  · exact ⟨hloop.onward.trans (.back h2.1), hlen, h2.2.trans hfailure⟩

theorem lt_rounds (st : State) : byteLength env.source < st.offset + rounds env st := by
  rw [rounds, env.length_eq]
  omega

/-- A loop that counts and one that looks for rounds that take nothing, over the rounds that are
    counted. If these stall, the second loop ends too early. Otherwise it is where the first one
    has come to, and ends there or goes on. -/
theorem repeatLoop_of_repeatUpTo (hp : NeverRecords env p ctx) {fuel : Nat} {vs ws : List Value}
    (hs : st.Sound env.source)
    (hfuel : byteLength env.source < st.offset + fuel)
    (h : repeatUpTo (answer env p ctx) n vs st = .ok (ws, st'))
    (hlen : vs.length + n ≤ ws.length) :
    (Stalls env p ctx n st → ∃ us st2, us.length < vs.length + n ∧
      repeatLoop (answer env p ctx) fuel vs st = .ok (us, st2)) ∧
    (¬ Stalls env p ctx n st → repeatLoop (answer env p ctx) fuel vs st = .ok (ws, st') ∨
      ∃ k, byteLength env.source < st'.offset + k ∧
        repeatLoop (answer env p ctx) fuel vs st = repeatLoop (answer env p ctx) k ws st') := by
  -- on the rounds that are counted
  induction n generalizing fuel vs st with
  | zero =>
    cases h
    exact ⟨fun hstalls => absurd hstalls not_stalls_zero, fun _ => .inr ⟨fuel, hfuel, rfl⟩⟩
  | succ n ih =>
    have hround := answer_round hp hs fun hlt _ => (trivial : (fun _ => True) hlt)
    obtain ⟨k, rfl⟩ : ∃ k, fuel = k + 1 := by
      have hle := hs.cursor.isBoundary.le
      rw [State.offset_def] at hle
      exact ⟨fuel - 1, by omega⟩
    rw [repeatUpTo] at h
    rw [repeatLoop]
    cases hmatch : answer env p ctx st with
    | matched v st1 =>
      have hanswers := answers_matched_iff.mpr hmatch
      rw [hmatch] at h hround
      have honward : st.Onward env.source st1 := hround.1
      have hlen1 : (v :: vs).length + n ≤ ws.length := by
        rw [List.length_cons]
        omega
      by_cases hstay : st1.offset = st.offset
      · simp only [if_pos hstay]
        cases n with
        | zero =>
          cases h
          exact ⟨fun hstalls => absurd hstalls not_stalls_one, fun _ => .inl rfl⟩
        | succ n =>
          have hstalls : Stalls env p ctx (n + 2) st := .here hanswers hstay
          have hshort : (v :: vs).length < vs.length + (n + 1 + 1) := by
            rw [List.length_cons]
            omega
          exact ⟨fun _ => ⟨v :: vs, st1, hshort, rfl⟩, fun hnot => absurd hstalls hnot⟩
      · have hle := honward.2
        obtain ⟨hstalled, hgoes⟩ := @ih st1 k (v :: vs) honward.1 (by omega) h hlen1
        simp only [if_neg hstay]
        rw [stalls_succ_iff hanswers hstay]
        refine ⟨fun hstalls => ?_, hgoes⟩
        obtain ⟨us, st2, hus, hloop⟩ := hstalled hstalls
        rw [List.length_cons] at hus
        exact ⟨us, st2, by omega, hloop⟩
    | failed st1 =>
      rw [hmatch] at h
      cases h
      omega
    | stopped hlt =>
      rw [hmatch] at h
      cases h

end Node

-- ============================================================================
-- Exact and unbounded repetitions
-- ============================================================================

theorem Node.endRepeat_eq_matched {t : Ty} {min : Nat} {start : Cursor}
    {r : Except Halt (List Value × State)}
    (h : endRepeat ctx t min start r = .matched v st') :
    ∃ ws, r = .ok (ws, st') ∧ min ≤ ws.length ∧ st'.pending ctx = false := by
  cases r with
  | error hlt => cases h
  | ok r =>
    obtain ⟨ws, st1⟩ := r
    rw [endRepeat] at h
    split at h
    · cases h
    · rename_i hends
      cases h
      obtain ⟨hlen, hpending⟩ := not_or.mp hends
      exact ⟨ws, rfl, Nat.le_of_not_lt hlen, Bool.eq_false_iff.mpr hpending⟩

/-- A parser that comes to a match or to a failure from here on. -/
def Decides (env : Env) (p : Grammar) (ctx : Ctx) (st : State) : Prop :=
  ∀ st1, st.Onward env.source st1 → ∃ o, Answers env p ctx st1 o ∧ ∀ hlt, o ≠ .stopped hlt

section Exactly

open Notation

variable (hp : NeverRecords env p ctx) (hs : st.Sound env.source)
  (h : Answers env (exactly n p) ctx st (.matched v st'))

include hs h

/-- What an exact repetition has run when it matches. -/
theorem exactly_runs : st'.Sound env.source ∧
    ∃ ws, Node.repeatUpTo (answer env p ctx) n [] st = .ok (ws, st') ∧ n ≤ ws.length ∧
      st'.pending ctx = false := by
  refine ⟨?_, Node.endRepeat_eq_matched (answers_iff_step.mp h).2⟩
  obtain ⟨-, m, hm⟩ := h
  have hleads := parse_leads env m (exactly n p) ctx st hs
  rw [hm] at hleads
  exact hleads.1.1

include hp

/-- Rounds that stall are not enough for the repetition without a bound. -/
theorem atLeast_of_stalls (hstalls : Stalls env p ctx n st) :
    ∃ st2, Answers env (atLeast n p) ctx st (.failed st2) := by
  obtain ⟨-, ws, hexact, hlen, -⟩ := exactly_runs hs h
  obtain ⟨us, st2, hus, hloop⟩ := (Node.repeatLoop_of_repeatUpTo hp hs
    (Node.lt_rounds st) hexact (by simpa using hlen)).1 hstalls
  have hshort : us.length < n ∨ st2.pending ctx = true := .inl (by simpa using hus)
  refine ⟨st2.moveTo st.cursor, answers_iff_step.mpr ⟨Outcome.not_spent_failed _, ?_⟩⟩
  simp only [atLeast, Node.step, Node.times, hloop, Node.endRepeat, if_pos hshort]

/-- Behind rounds that do not stall there are only more that lead onward and record nothing. -/
theorem atLeast_meets (hstalls : ¬ Stalls env p ctx n st) {halt : Halt → Prop}
    (hhalt : ∀ st1 hlt, st'.Onward env.source st1 → answer env p ctx st1 = .stopped hlt →
      halt hlt) :
    (Node.step env (answer env) (atLeast n p) ctx st).Meets
      ⟨fun _ st2 => st'.offset ≤ st2.offset, fun _ => False, halt⟩ := by
  obtain ⟨hs', ws, hexact, hlen, hpending⟩ := exactly_runs hs h
  have hround (st1 : State) (h1 : st'.Onward env.source st1) :
      (answer env p ctx st1).Meets (Round env.source halt st1) :=
    answer_round hp h1.1 fun hlt => hhalt st1 hlt h1
  have hloop : Settles (Node.repeatLoop (answer env p ctx) (Node.rounds env st) [] st)
      (fun r => st'.Onward env.source r.2 ∧ ws.length ≤ r.1.length ∧ r.2.failure = st'.failure)
      halt := by
    rcases (Node.repeatLoop_of_repeatUpTo hp hs (Node.lt_rounds st) hexact
      (by simpa using hlen)).2 hstalls with hends | ⟨k, hk, hmore⟩
    · rw [hends]
      exact ⟨.refl hs', Nat.le_refl _, rfl⟩
    · rw [hmore]
      exact Node.repeatLoop_round hround ⟨.refl hs', hk⟩
  simp only [atLeast, Node.step, Node.times, Node.meets_endRepeat]
  refine hloop.mono (fun r hr => ?_) (fun _ hh => hh)
  obtain ⟨honward, hmore, hfailure⟩ := hr
  have hquiet : r.2.pending ctx = false := by
    rw [State.pending, hfailure]
    exact hpending
  have henough : ¬ (r.1.length < n ∨ r.2.pending ctx = true) := by
    rw [hquiet, not_or]
    exact ⟨by omega, Bool.false_ne_true⟩
  rw [if_neg henough]
  exact honward.2

/-- Where an exact repetition of a parser matches, which comes to no commit point where failures are
    tracked, the repetition of at least as many fails if a round before the last one takes nothing.
    Otherwise it never fails: what it answers is a match that ends at the same place or further on,
    unless the parser halts in a later round, and if the parser comes to a match or a failure in all
    of these, it does match. -/
theorem atLeast_of_exactly :
    (Stalls env p ctx n st → ∃ st2, Answers env (atLeast n p) ctx st (.failed st2)) ∧
    (¬ Stalls env p ctx n st →
      (∀ o, Answers env (atLeast n p) ctx st o →
        (∃ w st2, o = .matched w st2 ∧ st'.offset ≤ st2.offset) ∨ ∃ hlt, o = .stopped hlt) ∧
      (Decides env p ctx st' →
        ∃ w st2, Answers env (atLeast n p) ctx st (.matched w st2) ∧
          st'.offset ≤ st2.offset)) := by
  refine ⟨atLeast_of_stalls hp hs h, fun hstalls => ⟨fun o ho => ?_, fun hdecides => ?_⟩⟩
  · obtain ⟨-, rfl⟩ := answers_iff_step.mp ho
    have hends : (Node.step env (answer env) (atLeast n p) ctx st).Meets
        ⟨fun _ st2 => st'.offset ≤ st2.offset, fun _ => False, fun _ => True⟩ :=
      atLeast_meets hp hs h hstalls fun _ _ _ _ => trivial
    cases hstep : Node.step env (answer env) (atLeast n p) ctx st with
    | matched w st2 =>
      rw [hstep] at hends
      exact .inl ⟨w, st2, rfl, hends⟩
    | failed st2 =>
      rw [hstep] at hends
      exact hends.elim
    | stopped hlt => exact .inr ⟨hlt, rfl⟩
  · have hends : (Node.step env (answer env) (atLeast n p) ctx st).Meets
        ⟨fun _ st2 => st'.offset ≤ st2.offset, fun _ => False, fun _ => False⟩ :=
      atLeast_meets hp hs h hstalls fun st1 hlt h1 hstop => by
        obtain ⟨o, ho, hne⟩ := hdecides st1 h1
        exact hne hlt (((answers_iff ..).mp ho).2.symm.trans hstop)
    cases hstep : Node.step env (answer env) (atLeast n p) ctx st with
    | matched w st2 =>
      rw [hstep] at hends
      exact ⟨w, st2, answers_iff_step.mpr ⟨Outcome.not_spent_matched w st2, hstep⟩, hends⟩
    | failed st2 =>
      rw [hstep] at hends
      exact hends.elim
    | stopped hlt =>
      rw [hstep] at hends
      exact hends.elim

end Exactly

open Notation in
/-- Twice nothing is matched, but not at least twice. -/
theorem atLeast_fails_where_exactly_matches :
    (∃ v st', Answers (.of [] fun _ => none) (exactly 2 eps) {} { cursor := .start [] }
      (.matched v st')) ∧
    (∃ st2, Answers (.of [] fun _ => none) (atLeast 2 eps) {} { cursor := .start [] }
      (.failed st2)) ∧
    ¬ ∃ w st2, Answers (.of [] fun _ => none) (atLeast 2 eps) {} { cursor := .start [] }
      (.matched w st2) := by
  have hfails : ∃ st2, Answers (.of [] fun _ => none) (atLeast 2 eps) {} { cursor := .start [] }
      (.failed st2) := ⟨_, Outcome.not_spent_failed _, 2, rfl⟩
  refine ⟨⟨_, _, Outcome.not_spent_matched _ _, 2, rfl⟩, hfails, ?_⟩
  rintro ⟨w, st2, hmatches⟩
  obtain ⟨st3, hfails⟩ := hfails
  cases hmatches.unique hfails

open Notation in
/-- A letter, or nothing. -/
def letterOrNothing : Grammar := opt 'a'

def threeLetters : Env := .of "aaab".toList fun _ => none

theorem decides_letterOrNothing (st : State) : Decides threeLetters letterOrNothing {} st := by
  intro st1 honward
  have hstep : Node.step threeLetters (answer threeLetters) letterOrNothing {} st1 =
      Node.opt {} .unused (answer threeLetters (Notation.lit 'a') {}) st1 := rfl
  rcases terminal_ends threeLetters (.lit 'a') honward.1.cursor with ⟨cursor, ⟨v, hv⟩ | hmiss⟩
  · have hletter : answer threeLetters (Notation.lit 'a') {} st1 = _ := answers_matched_iff.mp hv
    rw [Node.opt, hletter, Outcome.cases_matched] at hstep
    refine ⟨_, answers_iff_step.mpr ⟨Outcome.not_spent_matched _ _, hstep⟩, ?_⟩
    intro hlt he
    cases he
  · have hletter : answer threeLetters (Notation.lit 'a') {} st1 = _ :=
      ((answers_iff ..).mp hmiss).2
    have hnone : ¬ State.pending { st1 with cursor } {} = true := Bool.false_ne_true
    rw [Node.opt, hletter, Outcome.cases_failed, if_neg hnone] at hstep
    refine ⟨_, answers_iff_step.mpr ⟨Outcome.not_spent_matched _ _, hstep⟩, ?_⟩
    intro hlt he
    cases he

/-- The first letter is taken, so that the two rounds do not stall. -/
theorem letters_not_stalls :
    ¬ Stalls threeLetters letterOrNothing {} 2 { cursor := .start threeLetters.source } := by
  have hfirst : ∃ v, Answers threeLetters letterOrNothing {}
      { cursor := .start threeLetters.source } (.matched v { cursor := ⟨1, "aab".toList⟩ }) :=
    ⟨_, Outcome.not_spent_matched _ _, 3, rfl⟩
  obtain ⟨v, hfirst⟩ := hfirst
  rw [stalls_succ_iff hfirst (by decide)]
  exact not_stalls_one

open Notation in
/-- Two letters are matched, and at least two are matched as well, further on. -/
theorem atLeast_of_exactly_letters :
    ¬ Stalls threeLetters letterOrNothing {} 2 { cursor := .start threeLetters.source } ∧
    ∃ v st', Answers threeLetters (exactly 2 letterOrNothing) {}
        { cursor := .start threeLetters.source } (.matched v st') ∧
      Decides threeLetters letterOrNothing {} st' ∧
      ∃ w st2, Answers threeLetters (atLeast 2 letterOrNothing) {}
          { cursor := .start threeLetters.source } (.matched w st2) ∧
        st'.offset ≤ st2.offset := by
  have henv : threeLetters.Under uncommitted := fun _ _ _ hd => nomatch hd
  have hp : uncommitted.node letterOrNothing := by
    show letterOrNothing.All (·.isExpect = false)
    decide
  obtain ⟨v, st', hexact⟩ : ∃ v st', Answers threeLetters (exactly 2 letterOrNothing) {}
      { cursor := .start threeLetters.source } (.matched v st') :=
    ⟨_, _, Outcome.not_spent_matched _ _, 4, rfl⟩
  have h := atLeast_of_exactly (.of_uncommitted henv Ctx.root_under hp)
    (.start threeLetters.source) hexact
  have hdecides := decides_letterOrNothing st'
  exact ⟨letters_not_stalls, v, st', hexact, hdecides, (h.2 letters_not_stalls).2 hdecides⟩

end Peg
