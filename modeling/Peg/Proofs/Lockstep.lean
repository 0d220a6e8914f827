/-
  Peg.Proofs.Lockstep

  Two parses side by side. Their states are tied: they are the same but for the
  failure on record and the journal, and the failures on record have to do with
  each other as the tie says. A parser simulates another one when from tied states
  the two end alike, with tied states again. Every kind of node passes this on
  from its parts, so that two whole parses agree once they agree on what a commit
  point records, on which rule a name stands for, and on what a rule does about a
  failure.

  A tie may hold up to a point only: it tells which failures on record do not yet
  end it. What a parse did is then read from where it ended, and for this a
  simulation also says that the tie did not end before.
-/
import Peg.Proofs.Approximation
import Peg.Proofs.Renaming
import Peg.Proofs.Runs

namespace Peg

/-! ## Ties -/

/-- What ties the states of two parses, apart from being the same in all that a parse can look
    at. -/
structure Tie where
  /-- how the failures on record in the two parses have to do with each other -/
  failures : Option Failure → Option Failure → Prop
  /-- the failure on record in the first parse does not end the tie -/
  keep : Option Failure → Prop
  /-- the second parse halts as well where the first one halts so -/
  halts : Halt → Prop

namespace Tie

/-- The states of two parses that are tied. -/
inductive Same (T : Tie) (st : State) : State → Prop where
  | intro (failure : Option Failure) (journal : List Incident)
      (h : T.failures st.failure failure) : T.Same st { st with failure, journal }

/-- The first parse went from `st` to `st1`. If the tie has not ended there, it had not ended
    before, and from every state tied to `st` the second parse goes as `Q` says to one tied to
    `st1`. -/
def Carries (T : Tie) (st st1 : State) (Q : State → State → Prop) : Prop :=
  T.keep st1.failure → T.keep st.failure ∧ ∀ u, T.Same st u → ∃ u1, Q u u1 ∧ T.Same st1 u1

/-- An outcome of the first parse from `st` is also one of the second parse. -/
def Follows (T : Tie) (p' : Step) (st : State) : Post :=
  ⟨fun v st1 => T.Carries st st1 fun u u1 => p' u = .matched v u1,
    fun st1 => T.Carries st st1 fun u u1 => p' u = .failed u1,
    fun h => T.halts h → T.Carries st h.state fun u u1 => p' u = .stopped ⟨h.why, u1⟩⟩

/-- From tied states the two parsers end alike. -/
def Simulates (T : Tie) (p p' : Step) : Prop := ∀ st, (p st).Meets (T.Follows p' st)

/-- The same for computations that end well or halt. -/
def Leads (T : Tie) (s s' : State → Except Halt State) : Prop :=
  ∀ st, Settles (s st) (fun st1 => T.Carries st st1 fun u u1 => s' u = .ok u1)
    (fun h => T.halts h → T.Carries st h.state fun u u1 => s' u = .error ⟨h.why, u1⟩)

/-- Changing the states so keeps them tied. -/
structure Keeps (T : Tie) (g g' : State → State) : Prop where
  keep : ∀ st, T.keep (g st).failure → T.keep st.failure
  same : ∀ {st u}, T.Same st u → T.Same (g st) (g' u)

variable {T : Tie} {st st1 st2 u : State} {Q Q' Q'' : State → State → Prop}

namespace Carries

theorem refl (st : State) : T.Carries st st fun u u1 => u1 = u :=
  fun h => ⟨h, fun u hu => ⟨u, rfl, hu⟩⟩

theorem mono (h : T.Carries st st1 Q)
    (hQ : ∀ u u1, T.Same st u → T.Same st1 u1 → Q u u1 → Q' u u1) :
    T.Carries st st1 Q' := fun hkeep =>
  ⟨(h hkeep).1, fun u hu =>
    have ⟨u1, h1, hu1⟩ := (h hkeep).2 u hu
    ⟨u1, hQ u u1 hu hu1 h1, hu1⟩⟩

theorem trans (h : T.Carries st st1 Q) (h' : T.Carries st1 st2 Q')
    (hQ : ∀ u u1 u2, T.Same st u → T.Same st1 u1 → Q u u1 → Q' u1 u2 → Q'' u u2) :
    T.Carries st st2 Q'' := by
  intro hkeep
  -- the end of the tie is told from the last state, and so the second part comes first
  obtain ⟨hkeep1, hnext⟩ := h' hkeep
  obtain ⟨hkeep0, hfirst⟩ := h hkeep1
  refine ⟨hkeep0, fun u hu => ?_⟩
  obtain ⟨u1, h1, hu1⟩ := hfirst u hu
  obtain ⟨u2, h2, hu2⟩ := hnext u1 hu1
  exact ⟨u2, hQ u u1 u2 hu hu1 h1 h2, hu2⟩

/-- A change that keeps states tied. -/
theorem of_keeps {g g' : State → State} (hg : T.Keeps g g') (st : State) :
    T.Carries st (g st) fun u u1 => u1 = g' u :=
  fun hkeep => ⟨hg.keep st hkeep, fun u hu => ⟨g' u, rfl, hg.same hu⟩⟩

/-- The second parser goes on from where it came to. -/
theorem follows {o : Outcome} {p' q' : Step} (h : T.Carries st st1 Q)
    (ho : o.Meets (T.Follows q' st1)) (hQ : ∀ u u1, T.Same st u → Q u u1 → p' u = q' u1) :
    o.Meets (T.Follows p' st) :=
  ho.mono (fun _ _ h1 => h.trans h1 fun u u1 _ hu _ e1 e2 => (hQ u u1 hu e1).trans e2)
    (fun _ h1 => h.trans h1 fun u u1 _ hu _ e1 e2 => (hQ u u1 hu e1).trans e2)
    (fun _ hh ht => h.trans (hh ht) fun u u1 _ hu _ e1 e2 => (hQ u u1 hu e1).trans e2)

end Carries

namespace Keeps

variable {g g' : State → State}

theorem id : T.Keeps (fun st => st) (fun u => u) := ⟨fun _ h => h, fun h => h⟩

/-- A change that does not look at the failure on record and the journal, and leaves the
    failure. -/
theorem frame (hf : ∀ st, (g st).failure = st.failure)
    (hg : ∀ st failure journal, ∃ journal', g' { st with failure, journal } =
      { g st with failure, journal := journal' }) : T.Keeps g g' := by
  refine ⟨fun st hkeep => hf st ▸ hkeep, ?_⟩
  rintro st _ ⟨failure, journal, h⟩
  obtain ⟨journal', hg⟩ := hg st failure journal
  rw [hg]
  exact .intro failure journal' (by rwa [hf])

theorem moveTo (c : Cursor) : T.Keeps (·.moveTo c) (·.moveTo c) :=
  frame (fun _ => rfl) fun _ _ _ => ⟨_, rfl⟩

theorem mark (i i' : State → Incident) :
    T.Keeps (fun st => st.mark (i st)) (fun u => u.mark (i' u)) :=
  frame (fun _ => rfl) fun _ _ _ => ⟨_, rfl⟩

theorem openCell (id : Nat) (v : Value) : T.Keeps (·.openCell id v) (·.openCell id v) := by
  refine frame (fun st => ?_) fun st failure journal => ⟨journal, ?_⟩
  · rw [State.openCell_eq]
  · simp only [State.openCell]
    split <;> rfl

theorem condition (c : Condition) :
    T.Keeps (fun st => (Node.condition c st).2) (fun u => (Node.condition c u).2) := by
  refine frame (fun st => ?_) fun st failure journal => ⟨journal, ?_⟩
  · rw [Node.condition_eq]
  · cases c <;> rfl

theorem comp {k k' : State → State} (hk : T.Keeps k k') (hg : T.Keeps g g') :
    T.Keeps (fun st => k (g st)) (fun u => k' (g' u)) :=
  ⟨fun st h => hg.keep st (hk.keep _ h), fun h => hk.same (hg.same h)⟩

end Keeps

/-! ## Building blocks -/

namespace Simulates

variable {p p' q q' : Step}

/-- What the second parser does away from tied states does not matter. -/
theorem congr {o : Outcome} (h : o.Meets (T.Follows p' st)) (hp : ∀ u, T.Same st u → q' u = p' u) :
    o.Meets (T.Follows q' st) :=
  (Carries.refl st).follows h fun u _ hu e => e ▸ hp u hu

/-- After changes that keep the states tied. -/
theorem after {g g' : State → State} (hp : T.Simulates p p') (hg : T.Keeps g g') :
    T.Simulates (fun st => p (g st)) (fun u => p' (g' u)) :=
  fun st => (Carries.of_keeps hg st).follows (hp (g st)) fun _ _ _ e => congrArg p' e.symm

theorem matched {v v' : State → Value} {g g' : State → State} (hg : T.Keeps g g')
    (hv : ∀ st u, T.Same st u → v' u = v st) :
    T.Simulates (fun st => .matched (v st) (g st)) (fun u => .matched (v' u) (g' u)) :=
  fun st => (Carries.of_keeps hg st).mono fun u _ hu _ e =>
    e ▸ congrArg (Outcome.matched · (g' u)) (hv st u hu)

/-- A match with one value. -/
theorem yields (v : Value) {g g' : State → State} (hg : T.Keeps g g') :
    T.Simulates (fun st => .matched v (g st)) (fun u => .matched v (g' u)) :=
  matched hg fun _ _ _ => rfl

theorem failed {g g' : State → State} (hg : T.Keeps g g') :
    T.Simulates (fun st => .failed (g st)) (fun u => .failed (g' u)) :=
  fun st => (Carries.of_keeps hg st).mono fun _ _ _ _ e => e ▸ rfl

theorem stopped (why : Stop) :
    T.Simulates (fun st => .stopped ⟨why, st⟩) (fun u => .stopped ⟨why, u⟩) :=
  fun st _ => (Carries.refl st).mono fun _ _ _ _ e => e ▸ rfl

theorem ite {c c' : State → Prop} [DecidablePred c] [DecidablePred c'] (hp : T.Simulates p p')
    (hq : T.Simulates q q') (hc : ∀ st u, T.Same st u → (c' u ↔ c st)) :
    T.Simulates (fun st => if c st then p st else q st) (fun u => if c' u then p' u else q' u) := by
  intro st
  by_cases h : c st
  · simp only [if_pos h]
    exact congr (hp st) fun u hu => if_pos ((hc st u hu).mpr h)
  · simp only [if_neg h]
    exact congr (hq st) fun u hu => if_neg fun h' => h ((hc st u hu).mp h')

/-- What goes on after a match or a failure may depend on the state before it, by what tied states
    have in common. -/
theorem cases {hit hit' : State → Value → Step} {miss miss' : State → Step}
    (hp : T.Simulates p p') (hhit : ∀ st v, T.Simulates (hit st v) (hit' st v))
    (hmiss : ∀ st, T.Simulates (miss st) (miss' st))
    (hc : ∀ st u, T.Same st u → hit' u = hit' st ∧ miss' u = miss' st) :
    T.Simulates (fun st => (p st).cases (hit st) (miss st))
      (fun u => (p' u).cases (hit' u) (miss' u)) := by
  intro st
  rw [Outcome.meets_cases]
  refine (hp st).mono (fun v st1 h1 => ?_) (fun st1 h1 => ?_) (fun hlt hh ht => ?_)
  · refine h1.follows (hhit st v st1) fun u u1 hu e => ?_
    rw [e, Outcome.cases_matched, (hc st u hu).1]
  · refine h1.follows (hmiss st st1) fun u u1 hu e => ?_
    rw [e, Outcome.cases_failed, (hc st u hu).2]
  · refine (hh ht).mono fun u u1 _ _ e => ?_
    simp only [e, Outcome.cases_stopped]

/-- The outcome in a changed state. -/
theorem mapState {g g' : State → State} (hp : T.Simulates p p') (hg : T.Keeps g g') :
    T.Simulates (fun st => Node.mapState g (p st)) (fun u => Node.mapState g' (p' u)) := by
  intro st
  rw [Node.meets_mapState]
  refine (hp st).mono (fun v st1 h1 => ?_) (fun st1 h1 => ?_) (fun hlt hh ht => ?_)
  · refine h1.trans (.of_keeps hg st1) fun u u1 u2 _ _ e1 e2 => ?_
    simp only [e1, e2, Node.mapState]
  · refine h1.trans (.of_keeps hg st1) fun u u1 u2 _ _ e1 e2 => ?_
    simp only [e1, e2, Node.mapState]
  · refine (hh ht).mono fun u u1 _ _ e => ?_
    simp only [e, Node.mapState]

end Simulates

/-- What goes on after skipping, which may depend on the state before it. -/
theorem Leads.afterSkip {s s' : State → Except Halt State} {k k' : State → Step}
    (hs : T.Leads s s') (hk : ∀ st, T.Simulates (k st) (k' st))
    (hc : ∀ st u, T.Same st u → k' u = k' st) :
    T.Simulates (fun st => Node.afterSkip (s st) (k st))
      (fun u => Node.afterSkip (s' u) (k' u)) := by
  intro st
  rw [Node.meets_afterSkip]
  refine (hs st).mono (fun st1 h1 => ?_) (fun hlt hh ht => ?_)
  · refine h1.follows (hk st st1) fun u u1 hu e => ?_
    rw [e, hc st u hu]
    rfl
  · refine (hh ht).mono fun u u1 _ _ e => ?_
    simp only [e, Node.afterSkip]

end Tie

/-! ## Loops -/

namespace Node

open Tie (Same Simulates Leads Keeps)

variable {T : Tie} {env : Env} {ctx ctx' : Ctx} {p p' q q' d d' : Step}

section Loops

theorem skipLoop_leads (hp : T.Simulates p p') (n : Nat) :
    T.Leads (skipLoop p n) (skipLoop p' n) := by
  induction n with
  | zero => exact fun st _ => (Tie.Carries.refl st).mono fun _ _ _ _ e => e ▸ rfl
  | succ n ih =>
    intro st
    have h := hp st
    rw [skipLoop]
    cases hc : p st with
    | matched v st1 =>
      rw [hc] at h
      have h : T.Carries st st1 fun u u1 => p' u = .matched v u1 := h
      by_cases hm : st1.offset = st.offset
      · simp only [if_pos hm, settles_ok]
        refine h.mono fun u u1 hu hu1 e => ?_
        cases hu; cases hu1
        simp only [skipLoop, e]
        exact if_pos hm
      · simp only [if_neg hm]
        refine (ih st1).mono (fun st2 h2 => ?_) (fun hlt hh ht => ?_)
        · refine h.trans h2 fun u u1 u2 hu hu1 e1 e2 => ?_
          cases hu; cases hu1
          simp only [skipLoop, e1]
          exact (if_neg hm).trans e2
        · refine h.trans (hh ht) fun u u1 u2 hu hu1 e1 e2 => ?_
          cases hu; cases hu1
          simp only [skipLoop, e1]
          exact (if_neg hm).trans e2
    | failed st1 =>
      rw [hc] at h
      refine Tie.Carries.mono h fun u u1 _ _ e => ?_
      simp only [skipLoop, e]
    | stopped hlt =>
      rw [hc] at h
      refine fun ht => Tie.Carries.mono (h ht) fun u u1 _ _ e => ?_
      simp only [skipLoop, e]

/-- Whether a failure is pending is the same in tied states. -/
def PendingAlike (T : Tie) (ctx ctx' : Ctx) : Prop :=
  ∀ st u, T.Same st u → u.pending ctx' = st.pending ctx

variable (hpend : PendingAlike T ctx ctx')

include hpend

theorem endRepeat_simulates {t : Ty} {min : Nat} {start : Cursor} {vs : List Value} :
    T.Simulates (fun st => endRepeat ctx t min start (.ok (vs, st)))
      (fun u => endRepeat ctx' t min start (.ok (vs, u))) := by
  refine .ite (.failed (.moveTo start)) (.yields _ .id) fun st u hu => ?_
  rw [hpend st u hu]

theorem repeatLoop_simulates (hp : T.Simulates p p') (t : Ty) (min : Nat) (start : Cursor)
    (n : Nat) (vs : List Value) :
    T.Simulates (fun st => endRepeat ctx t min start (repeatLoop p n vs st))
      (fun u => endRepeat ctx' t min start (repeatLoop p' n vs u)) := by
  induction n generalizing vs with
  | zero => exact .stopped .exhausted
  | succ n ih =>
    have round (ctx : Ctx) (p : Step) :
        (fun st => endRepeat ctx t min start (repeatLoop p (n + 1) vs st)) = fun st =>
          (p st).cases
            (fun v st1 => if st1.offset = st.offset then
                endRepeat ctx t min start (.ok (v :: vs, st1))
              else endRepeat ctx t min start (repeatLoop p n (v :: vs) st1))
            (fun st1 => endRepeat ctx t min start (.ok (vs, st1))) := by
      funext st
      rw [repeatLoop]
      cases p st with
      | matched v st1 => exact apply_ite (endRepeat ctx t min start) ..
      | failed st1 => rfl
      | stopped h => rfl
    rw [round, round]
    refine .cases hp (fun st v => ?_) (fun _ => endRepeat_simulates hpend) ?_
    · refine .ite (endRepeat_simulates hpend) (ih _) ?_
      rintro st1 _ ⟨failure, journal, -⟩
      rfl
    · rintro st _ ⟨failure, journal, -⟩
      exact ⟨rfl, rfl⟩

theorem repeatUpTo_simulates (hp : T.Simulates p p') (t : Ty) (min : Nat) (start : Cursor)
    (n : Nat) (vs : List Value) :
    T.Simulates (fun st => endRepeat ctx t min start (repeatUpTo p n vs st))
      (fun u => endRepeat ctx' t min start (repeatUpTo p' n vs u)) := by
  induction n generalizing vs with
  | zero => exact endRepeat_simulates hpend
  | succ n ih =>
    have round (ctx : Ctx) (p : Step) :
        (fun st => endRepeat ctx t min start (repeatUpTo p (n + 1) vs st)) = fun st =>
          (p st).cases (fun v st1 => endRepeat ctx t min start (repeatUpTo p n (v :: vs) st1))
            (fun st1 => endRepeat ctx t min start (.ok (vs, st1))) := by
      funext st
      rw [repeatUpTo]
      cases p st <;> rfl
    rw [round, round]
    exact .cases hp (fun _ _ => ih _) (fun _ => endRepeat_simulates hpend) fun _ _ _ => ⟨rfl, rfl⟩

theorem listLoop_simulates (hp : T.Simulates p p') (hd : T.Simulates d d') (t : Ty) (min : Nat)
    (start : Cursor) (n : Nat) (vs : List Value) :
    T.Simulates (fun st => endRepeat ctx t min start (listLoop p d n vs st))
      (fun u => endRepeat ctx' t min start (listLoop p' d' n vs u)) := by
  induction n generalizing vs with
  | zero => exact .stopped .exhausted
  | succ n ih =>
    have round (ctx : Ctx) (p d : Step) :
        (fun st => endRepeat ctx t min start (listLoop p d (n + 1) vs st)) = fun st =>
          (d st).cases
            (fun _ st1 => (p st1).cases
              (fun v st2 => if st2.offset = st.offset then
                  endRepeat ctx t min start (.ok (v :: vs, st2))
                else endRepeat ctx t min start (listLoop p d n (v :: vs) st2))
              (fun st2 => endRepeat ctx t min start (.ok (vs, st2.moveTo st.cursor))))
            (fun st1 => endRepeat ctx t min start (.ok (vs, st1))) := by
      funext st
      rw [listLoop]
      cases d st with
      | matched v0 st1 =>
        simp only [Outcome.cases_matched]
        cases p st1 with
        | matched v st2 => exact apply_ite (endRepeat ctx t min start) ..
        | failed st2 => rfl
        | stopped h => rfl
      | failed st1 => rfl
      | stopped h => rfl
    rw [round, round]
    refine .cases hd (fun st _ => ?_) (fun _ => endRepeat_simulates hpend) ?_
    · refine .cases hp (fun _ v => ?_) (fun _ => ?_) fun _ _ _ => ⟨rfl, rfl⟩
      · refine .ite (endRepeat_simulates hpend) (ih _) ?_
        rintro st2 _ ⟨failure, journal, -⟩
        rfl
      · exact (endRepeat_simulates hpend).after (.moveTo _)
    · rintro st _ ⟨failure, journal, -⟩
      exact ⟨rfl, rfl⟩

theorem seekLoop_simulates (hp : T.Simulates p p') (start : Cursor) (rest : Text) (offset : Nat) :
    T.Simulates (seekLoop (·.pending ctx) p start offset rest)
      (seekLoop (·.pending ctx') p' start offset rest) := by
  induction rest generalizing offset with
  | nil =>
    have round (ctx : Ctx) (p : Step) : seekLoop (·.pending ctx) p start offset [] = fun st =>
        (p (st.moveTo ⟨offset, []⟩)).cases .matched fun st1 => .failed (st1.moveTo start) := by
      funext st
      rw [seekLoop]
      cases p (st.moveTo ⟨offset, []⟩) with
      | failed st1 => exact ite_self _
      | _ => rfl
    rw [round, round]
    exact .cases (hp.after (.moveTo _)) (fun _ _ => .yields _ .id)
      (fun _ => .failed (.moveTo _)) fun _ _ _ => ⟨rfl, rfl⟩
  | cons c r ih =>
    have round (ctx : Ctx) (p : Step) :
        seekLoop (·.pending ctx) p start offset (c :: r) = fun st =>
          (p (st.moveTo ⟨offset, c :: r⟩)).cases .matched fun st1 =>
            if st1.pending ctx then .failed (st1.moveTo start)
            else seekLoop (·.pending ctx) p start (offset + c.utf8Size) r st1 := by
      funext st
      rw [seekLoop]
      cases p (st.moveTo ⟨offset, c :: r⟩) <;> rfl
    rw [round, round]
    refine .cases (hp.after (.moveTo _)) (fun _ _ => .yields _ .id)
      (fun _ => ?_) fun _ _ _ => ⟨rfl, rfl⟩
    refine .ite (.failed (.moveTo _)) (ih _) fun st u hu => ?_
    rw [hpend st u hu]

end Loops

theorem seqLoop_simulates (run run' : Grammar → Step) (f : String → String) (ps : List Grammar)
    (h : ∀ p ∈ ps, T.Simulates (run p) (run' (p.rename f))) (start : Cursor)
    (slots : List Value) :
    T.Simulates (seqLoop run start ps slots)
      (seqLoop run' start (Grammar.renameAll f ps) slots) := by
  induction ps generalizing slots with
  | nil => exact .yields _ .id
  | cons p ps ih =>
    have hps := ih fun q hq => h q (List.mem_cons_of_mem _ hq)
    refine .cases (h p List.mem_cons_self) (fun _ v => ?_) (fun _ => .failed (.moveTo _))
      fun _ _ _ => ⟨rfl, rfl⟩
    rw [Grammar.rename_ty]
    exact hps _

/-! ## Nodes -/

theorem takeTerminal_simulates (t : Terminal) (noCase : Bool) (start : Cursor) :
    T.Simulates (takeTerminal t noCase start) (takeTerminal t noCase start) := by
  intro st
  rw [takeTerminal]
  -- the outcome depends on the cursor alone
  cases hscan : t.scan noCase st.cursor.rest with
  | none =>
    refine Simulates.congr (Simulates.failed (.moveTo start) st) fun u hu => ?_
    cases hu
    simp only [takeTerminal, hscan]
  | some r =>
    obtain ⟨n, v⟩ := r
    cases hc : st.cursor.advance? n with
    | some c =>
      simp only [hc]
      refine Simulates.congr (Simulates.yields v (.moveTo c) st) fun u hu => ?_
      cases hu
      simp only [takeTerminal, hscan, hc]
    | none =>
      simp only [hc]
      refine Simulates.congr (Simulates.stopped (.offBoundary (st.offset + n)) st) fun u hu => ?_
      cases hu
      simp only [takeTerminal, hscan, hc]
      rfl


/-! ## Hooks -/

section Hooks

variable {st u : State}

/-- Storing does not look at the failure on record and the journal. -/
theorem store_channels (st : State) (ctx : Ctx) (bound : List (Key × Value))
    (failure : Option Failure) (journal : List Incident) :
    State.store { st with failure, journal } ctx bound =
      { st.store ctx bound with failure, journal } := by
  simp only [State.store]
  induction ctx.chain.inSight generalizing st with
  | nil => rfl
  | cons entry r ih =>
    have one : State.storeOne bound { st with failure, journal } entry =
        { State.storeOne bound st entry with failure, journal } := by
      unfold State.storeOne
      split
      · rename_i ref _ _ _
        cases ref <;> rfl
      · rfl
    rw [List.foldl_cons, List.foldl_cons, one, ih]

/-- Neither does a hook. -/
theorem perform_channels (env : Env) (ctx : Ctx) (f : Action) (span : Span) (varTy : Option Ty)
    (v : Value) (st : State) (failure : Option Failure) (journal : List Incident) :
    perform env ctx f span varTy v { st with failure, journal } =
      ((perform env ctx f span varTy v st).1,
        { (perform env ctx f span varTy v st).2 with failure, journal }) := by
  simp only [perform]
  rw [store_channels]
  rfl

variable (hchain : ctx'.chain.inSight = ctx.chain.inSight)

include hchain

/-- What a hook sees, and what it leaves, is the same in tied states. -/
theorem perform_same (f : Action) (span : Span) (varTy : Option Ty) (v : Value)
    (h : T.Same st u) :
    (perform env ctx' f span varTy v u).1 = (perform env ctx f span varTy v st).1 ∧
      T.Same (perform env ctx f span varTy v st).2 (perform env ctx' f span varTy v u).2 := by
  have hannotating : ctx'.annotating = ctx.annotating := by
    rw [Ctx.annotating, Ctx.annotating, hchain]
  have hvalues : u.values ctx' = u.values ctx := by
    rw [State.values, State.values, hchain]
  have hstore : u.store ctx' = u.store ctx := by
    funext bound
    rw [State.store, State.store, hchain]
  have hperform : perform env ctx' f span varTy v u = perform env ctx f span varTy v u := by
    unfold perform
    rw [hannotating, hvalues, hstore]
  obtain ⟨failure, journal, h⟩ := h
  rw [hperform, perform_channels]
  exact ⟨rfl, .intro failure journal (by rwa [perform_failure])⟩

/-- A hook on a match, which may veto it, with changes of the state before and after it. -/
theorem hook_simulates (f : Action) {span span' : State → Span} (varTy : Option Ty)
    {v v' : State → Value} {begin begin' close close' : State → State} (back : Cursor)
    (hspan : ∀ st u, T.Same st u → span' u = span st ∧ v' u = v st)
    (hbegin : T.Keeps begin begin') (hclose : T.Keeps close close') :
    T.Simulates
      (fun st =>
        let r := perform env ctx f (span st) varTy (v st) (begin st)
        if r.1.passed then .matched r.1.attr (close r.2) else .failed ((close r.2).moveTo back))
      (fun u =>
        let r := perform env ctx' f (span' u) varTy (v' u) (begin' u)
        if r.1.passed then .matched r.1.attr (close' r.2)
        else .failed ((close' r.2).moveTo back)) := by
  have hr {st u : State} (hu : T.Same st u) :
      (perform env ctx' f (span' u) varTy (v' u) (begin' u)).1 =
          (perform env ctx f (span st) varTy (v st) (begin st)).1 ∧
        T.Same (perform env ctx f (span st) varTy (v st) (begin st)).2
          (perform env ctx' f (span' u) varTy (v' u) (begin' u)).2 := by
    rw [(hspan st u hu).1, (hspan st u hu).2]
    exact perform_same hchain f _ varTy _ (hbegin.same hu)
  have hperform : T.Keeps (fun st => (perform env ctx f (span st) varTy (v st) (begin st)).2)
      (fun u => (perform env ctx' f (span' u) varTy (v' u) (begin' u)).2) :=
    ⟨fun st hkeep => hbegin.keep st (by rwa [perform_failure] at hkeep), fun hu => (hr hu).2⟩
  exact .ite (.matched (hclose.comp hperform) fun st u hu => congrArg Effect.attr (hr hu).1)
    (.failed ((Keeps.moveTo back).comp (hclose.comp hperform)))
    fun st u hu => by rw [(hr hu).1]

end Hooks

/-! ## Rules -/

section Rules

variable {rec rec' : Grammar → Ctx → Step} {r : Rule} {d d' : Definition} {f : String → String}

/-- What a rule does after its body matched. -/
theorem matchRule_simulates (hchain : ctx'.chain.inSight = ctx.chain.inSight)
    (hd : d.Renamed f r d') (st : State) (start : Nat) (v : Value) :
    T.Simulates (matchRule env ctx r d st start v)
      (matchRule env ctx' (r.rename f) d' st start v) := by
  cases hr : r.onSuccess with
  | none =>
    have hr' : (r.rename f).onSuccess = none := hr
    rw [matchRule_of_none hr, matchRule_of_none hr']
    refine .matched (.frame (fun _ => rfl) fun _ _ _ => ⟨_, rfl⟩) ?_
    rintro st2 _ ⟨failure, journal, -⟩
    exact hd.fill ..
  | some g =>
    have hr' : (r.rename f).onSuccess = some g := hr
    rw [matchRule_of_some hr, matchRule_of_some hr']
    refine hook_simulates hchain g none st.cursor ?_ ?_ (.mark (fun _ => _) fun _ => _)
    · rintro st2 _ ⟨failure, journal, -⟩
      exact ⟨rfl, hd.fill ..⟩
    · exact .frame (fun _ => rfl) fun _ _ _ => ⟨_, rfl⟩

/-- A call of a rule by another name. -/
theorem call_simulates (hchain : ctx'.chain.inSight = ctx.chain.inSight)
    (hd : d.Renamed f r d')
    (hskip : T.Leads (skipOver env rec ctx) (skipOver env rec' ctx'))
    (hbody : T.Simulates (rec d.body { ctx with varTy := some r.ty })
      (rec' (d.body.rename f) { ctx' with varTy := some r.ty }))
    (hmiss : ∀ start, T.Keeps (missRule env ctx r start) (missRule env ctx' (r.rename f) start)) :
    T.Simulates (call env rec r d ctx) (call env rec' (r.rename f) d' ctx') := by
  rw [← hd.body] at hbody
  have henter : T.Keeps
      (fun st1 => { st1.mark (.entered r.name) with ruleVar := Value.default r.ty })
      (fun u => { u.mark (.entered (f r.name)) with ruleVar := Value.default r.ty }) :=
    .frame (fun _ => rfl) fun _ _ _ => ⟨_, rfl⟩
  have hleave (st : State) : T.Keeps
      (fun st2 => { st2.mark (.left r.name) with cursor := st.cursor, ruleVar := st.ruleVar })
      (fun u => { u.mark (.left (f r.name)) with cursor := st.cursor, ruleVar := st.ruleVar }) :=
    .frame (fun _ => rfl) fun _ _ _ => ⟨_, rfl⟩
  refine hskip.afterSkip (fun st => ?_) ?_
  · refine .cases (hbody.after henter)
      (fun st1 v => matchRule_simulates hchain hd st st1.offset v)
      (fun st1 => .failed ((hleave st).comp (hmiss st1.offset))) ?_
    rintro st1 _ ⟨failure, journal, -⟩
    exact ⟨rfl, rfl⟩
  · rintro st _ ⟨failure, journal, -⟩
    rfl

end Rules

end Node

/-! ## Contexts -/

/-- The bindings and masks of a chain, without the injected rules. -/
def Chain.bindings {β ρ : Type} : Chain β ρ → Chain β ρ
  | [] => []
  | .bind k v :: r => .bind k v :: bindings r
  | .hide k :: r => .hide k :: bindings r
  | .inject _ _ :: r => bindings r

section Bindings

variable {β ρ : Type} (key : Key) (c : Chain β ρ)

theorem Chain.find?_bindings : c.bindings.find? key = c.find? key := by
  induction c with
  | nil => rfl
  | cons l r ih => cases l <;> simp only [bindings, find?, ih]

theorem Chain.keys_bindings : c.bindings.keys = c.keys := by
  induction c with
  | nil => rfl
  | cons l r ih => cases l <;> simp only [bindings, keys, ih]

/-- Injected rules hide nothing. -/
theorem Chain.inSight_bindings : c.bindings.inSight = c.inSight := by
  simp only [inSight, keys_bindings, find?_bindings]

end Bindings

/-- The contexts differ in the injected rules at most, and in whether failures are recorded. -/
structure Ctx.Alike (ctx ctx' : Ctx) : Prop where
  skipper : ctx'.skipper = ctx.skipper
  skipping : ctx'.skipping = ctx.skipping
  noCase : ctx'.noCase = ctx.noCase
  varTy : ctx'.varTy = ctx.varTy
  bindings : ctx'.chain.bindings = ctx.chain.bindings

theorem Ctx.Alike.inSight {ctx ctx' : Ctx} (h : ctx.Alike ctx') :
    ctx'.chain.inSight = ctx.chain.inSight := by
  rw [← ctx'.chain.inSight_bindings, h.bindings, ctx.chain.inSight_bindings]

/-- What two parses have to agree on, apart from commit points, for one to follow the other: which
    nodes they meet, and in which contexts. -/
structure Lockstep (env : Env) (f : String → String) (T : Tie) where
  node : Grammar → Prop
  ctx : Ctx → Ctx → Prop
  child : ∀ {g q : Grammar}, node g → q ∈ g.children → node q
  alike : ∀ {c c' : Ctx}, ctx c c' → c.Alike c'
  /-- a failure is pending in both parses or in none -/
  pending : ∀ {c c' : Ctx}, ctx c c' → Node.PendingAlike T c c'
  /-- nothing hangs on anything but the skipper, the tracking and the injected rules -/
  like : ∀ {c c' c1 c1' : Ctx}, ctx c c' → c1.Like c → c1'.Like c' → c1.Alike c1' → ctx c1 c1'
  skipWith : ∀ {s p : Grammar} {c c' : Ctx}, node (.skipWith s p) → ctx c c' →
    ctx { c with skipper := some s, skipping := true }
      { c' with skipper := some (s.rename f), skipping := true }
  define : ∀ {r : Rule} {force : Bool} {b : Grammar} {c c' : Ctx}, node (.define r force b) →
    ctx c c' → ctx (c.inject r.name ⟨b, force⟩) (c'.inject (f r.name) ⟨b.rename f, force⟩)
  /-- a name stands for the same rule -/
  rule : ∀ {r : Rule} {c c' : Ctx} {d : Definition}, node (.rule r) → ctx c c' →
    (c.chain.injected? r.name).or (env.rules r.name) = some d →
    ∃ d', (c'.chain.injected? (f r.name)).or (env.rules (f r.name)) = some d' ∧ d.Renamed f r d'
  undefined : ∀ {r : Rule} {c c' : Ctx}, node (.rule r) → ctx c c' →
    (c.chain.injected? r.name).or (env.rules r.name) = none →
    f r.name = r.name ∧ (c'.chain.injected? r.name).or (env.rules r.name) = none
  body : ∀ {r : Rule} {c c' : Ctx} {d : Definition}, node (.rule r) → ctx c c' →
    (c.chain.injected? r.name).or (env.rules r.name) = some d → node d.body
  /-- a rule does the same about a failure -/
  miss : ∀ {r : Rule} {c c' : Ctx} (start : Nat),
    (node (.rule r) ∨ ∃ force b, node (.define r force b)) → ctx c c' →
    T.Keeps (Node.missRule env c r start) (Node.missRule env c' (r.rename f) start)

namespace Lockstep

variable {env : Env} {f : String → String} {T : Tie} (L : Lockstep env f T)
  {c c' : Ctx}

include L

theorem skipping (h : L.ctx c c') (b : Bool) :
    L.ctx { c with skipping := b } { c' with skipping := b } :=
  L.like h (.skipping c b) (.skipping c' b) { L.alike h with skipping := rfl }

theorem noCase (h : L.ctx c c') (b : Bool) :
    L.ctx { c with noCase := b } { c' with noCase := b } :=
  L.like h (.noCase c b) (.noCase c' b) { L.alike h with noCase := rfl }

theorem varTy (h : L.ctx c c') (t : Option Ty) :
    L.ctx { c with varTy := t } { c' with varTy := t } :=
  L.like h (.varTy c t) (.varTy c' t) { L.alike h with varTy := rfl }

theorem bind (h : L.ctx c c') (key : Key) (b : Bound) : L.ctx (c.bind key b) (c'.bind key b) :=
  L.like h (.bind c key b) (.bind c' key b)
    { L.alike h with bindings := by simp only [Ctx.bind, Chain.bindings, (L.alike h).bindings] }

theorem hide (h : L.ctx c c') (key : Key) :
    L.ctx { c with chain := .hide key :: c.chain } { c' with chain := .hide key :: c'.chain } :=
  L.like h (.hide c key) (.hide c' key)
    { L.alike h with bindings := by simp only [Chain.bindings, (L.alike h).bindings] }

end Lockstep

namespace Node

open Tie (Simulates)

variable {T : Tie} {env : Env} {f : String → String} {rec rec' : Grammar → Ctx → Step}

/-- In tied states there are as many rounds left. -/
theorem rounds_same {st u : State} (hu : T.Same st u) :
    rounds env u = rounds env st := by
  cases hu
  rfl

/-- Skippers run in a context of their own, where nothing hangs on the node. -/
theorem skipOver_leads {ctx ctx' : Ctx} (hctx : ctx.Alike ctx')
    (h : ∀ s, T.Simulates (rec s Ctx.root) (rec' s Ctx.root)) :
    T.Leads (skipOver env rec ctx) (skipOver env rec' ctx') := by
  intro st
  unfold skipOver
  rw [hctx.skipper, hctx.skipping]
  cases ctx.skipping with
  | false => exact (Tie.Carries.refl st).mono fun _ _ _ _ e => e ▸ rfl
  | true =>
    cases ctx.skipper with
    | none => exact (Tie.Carries.refl st).mono fun _ _ _ _ e => e ▸ rfl
    | some s =>
      have hloop := skipLoop_leads (h s) (rounds env st) st
      refine hloop.mono (fun st1 h1 => h1.mono fun u _ hu _ e => ?_)
        (fun hlt hh ht => (hh ht).mono fun u _ hu _ e => ?_)
      · simp only [rounds_same hu, e]
      · simp only [rounds_same hu, e]

theorem times_simulates {ctx ctx' : Ctx} {p p' : Step} (hpend : PendingAlike T ctx ctx')
    (hp : T.Simulates p p') (t : Ty) (min : Nat) (max : Option Nat) :
    T.Simulates (times env ctx t min max p) (times env ctx' t min max p') := by
  -- the loop depends on the state before it by the cursor and by the rounds that are left
  cases max with
  | none =>
    intro st
    refine Simulates.congr (repeatLoop_simulates hpend hp t min st.cursor (rounds env st) [] st)
      fun u hu => ?_
    rw [← rounds_same hu]
    cases hu
    rfl
  | some n =>
    intro st
    refine Simulates.congr (repeatUpTo_simulates hpend hp t min st.cursor n [] st) fun u hu => ?_
    cases hu
    rfl

theorem list_simulates {ctx ctx' : Ctx} {p p' d d' : Step} (hpend : PendingAlike T ctx ctx')
    (hp : T.Simulates p p') (hd : T.Simulates d d') (t : Ty) :
    T.Simulates (list env ctx t p d) (list env ctx' t p' d') := by
  refine .cases hp (fun st v st1 => ?_) (fun _ => .failed .id) ?_
  · refine Simulates.congr
      (listLoop_simulates hpend hp hd t 1 st.cursor (rounds env st1) [v] st1) fun u hu => ?_
    rw [← rounds_same hu]
  · rintro st _ ⟨failure, journal, -⟩
    exact ⟨rfl, rfl⟩

theorem seek_simulates {ctx ctx' : Ctx} {p p' : Step} (hpend : PendingAlike T ctx ctx')
    (hp : T.Simulates p p') : T.Simulates (seek ctx p) (seek ctx' p') := by
  intro st
  refine Simulates.congr
    (seekLoop_simulates hpend hp st.cursor st.cursor.rest st.offset st) fun u hu => ?_
  cases hu
  rfl

theorem action_simulates {ctx ctx' : Ctx} {p p' : Step} (hctx : ctx.Alike ctx')
    (hskip : T.Leads (skipOver env rec ctx) (skipOver env rec' ctx'))
    (hp : T.Simulates p p') (a : Action) :
    T.Simulates (action env rec ctx a p) (action env rec' ctx' a p') := by
  have hhook (st st1 : State) (v : Value) : T.Simulates
      (fun st2 =>
        let r := perform env ctx a ⟨st1.offset, st2.offset⟩ ctx.varTy v
          (st2.mark (.acted ⟨st1.offset, st2.offset⟩))
        if r.1.passed then .matched r.1.attr r.2 else .failed (r.2.moveTo st.cursor))
      (fun u =>
        let r := perform env ctx' a ⟨st1.offset, u.offset⟩ ctx.varTy v
          (u.mark (.acted ⟨st1.offset, u.offset⟩))
        if r.1.passed then .matched r.1.attr r.2 else .failed (r.2.moveTo st.cursor)) := by
    refine hook_simulates hctx.inSight a ctx.varTy st.cursor ?_ ?_ .id
    · rintro st2 _ ⟨failure, journal, -⟩
      exact ⟨rfl, rfl⟩
    · exact .frame (fun _ => rfl) fun _ _ _ => ⟨_, rfl⟩
  refine hskip.afterSkip (fun st => ?_) ?_
  · rw [hctx.varTy]
    refine .cases hp (fun st1 v => hhook st st1 v) (fun _ => .failed (.moveTo st.cursor)) ?_
    rintro st1 _ ⟨failure, journal, -⟩
    exact ⟨rfl, rfl⟩
  · rintro st _ ⟨failure, journal, -⟩
    rfl

theorem narrow_simulates {p p' : Step} (hp : T.Simulates p p') (k : Value → Option Value) :
    T.Simulates (narrow k p) (narrow k p') := by
  refine .cases hp (fun st v => ?_) (fun _ => .failed .id) ?_
  · cases k v with
    | some w => exact .yields w .id
    | none => exact .failed (.moveTo st.cursor)
  · rintro st _ ⟨failure, journal, -⟩
    exact ⟨rfl, rfl⟩

/-- One node follows another one if the parsers that it runs do. -/
theorem step_simulates (L : Lockstep env f T) (rec rec' : Grammar → Ctx → Step)
    (h : ∀ q c c', L.node q → L.ctx c c' → T.Simulates (rec q c) (rec' (q.rename f) c'))
    (hskip : ∀ c c', L.ctx c c' → T.Leads (skipOver env rec c) (skipOver env rec' c'))
    {g : Grammar} {ctx ctx' : Ctx} (hg : L.node g) (hctx : L.ctx ctx ctx')
    (hexpect : ∀ p, g = .expect p →
      T.Simulates (expect env rec ctx p) (expect env rec' ctx' (p.rename f))) :
    T.Simulates (step env rec g ctx) (step env rec' (g.rename f) ctx') := by
  have hskips := hskip ctx ctx' hctx
  have hpend := L.pending hctx
  have hlike := L.alike hctx
  -- the parsers below, in contexts that the parses agree on, and in that of the node
  have below {q : Grammar} (hq : q ∈ g.children) {c c' : Ctx} (hc : L.ctx c c') :
      T.Simulates (rec q c) (rec' (q.rename f) c') := h q c c' (L.child hg hq) hc
  have part {q : Grammar} (hq : q ∈ g.children) :
      T.Simulates (rec q ctx) (rec' (q.rename f) ctx') := below hq hctx
  cases g with
  | terminal t =>
    simp only [step, Grammar.rename]
    refine hskips.afterSkip (fun st => ?_) ?_
    · rw [hlike.noCase]
      exact takeTerminal_simulates t ctx.noCase st.cursor
    · rintro st _ ⟨failure, journal, -⟩
      rfl
  | eps c =>
    simp only [step, Grammar.rename]
    refine .ite ?_ (.failed (.condition c)) ?_
    · exact (hskips.afterSkip (fun _ => .yields _ .id) fun _ _ _ => rfl).after (.condition c)
    · rintro st _ ⟨failure, journal, -⟩
      cases c <;> rfl
  | attr ty v => exact .yields v .id
  | seq ps =>
    intro st
    have hseq := seqLoop_simulates (rec · ctx) (rec' · ctx') f ps (fun p hp => part hp)
    refine Simulates.congr (hseq st.cursor [] st) fun u hu => ?_
    cases hu
    simp only [step, Grammar.rename]
  | alt p q =>
    simp only [step, Grammar.rename, Grammar.rename_ty]
    refine .cases (part (by simp [Grammar.children, Grammar.parts])) (fun _ _ => .yields _ .id)
      (fun _ => ?_) fun _ _ _ => ⟨rfl, rfl⟩
    refine .ite (.failed .id) ?_ fun st u hu => by rw [hpend st u hu]
    exact .cases (part (by simp [Grammar.children, Grammar.parts])) (fun _ _ => .yields _ .id)
      (fun _ => .failed .id) fun _ _ _ => ⟨rfl, rfl⟩
  | diff p q =>
    refine .cases (part (by simp [Grammar.children, Grammar.parts]))
      (fun st _ => .failed (.moveTo st.cursor))
      (fun _ => part (by simp [Grammar.children, Grammar.parts])) ?_
    rintro st _ ⟨failure, journal, -⟩
    exact ⟨rfl, rfl⟩
  | list p d =>
    simp only [step, Grammar.rename, Grammar.rename_ty]
    exact list_simulates hpend (part (by simp [Grammar.children, Grammar.parts]))
      (part (by simp [Grammar.children, Grammar.parts])) p.ty
  | opt p =>
    simp only [step, Grammar.rename, Grammar.rename_ty]
    refine .cases (part List.mem_cons_self) (fun _ _ => .yields _ .id) (fun _ => ?_)
      fun _ _ _ => ⟨rfl, rfl⟩
    exact .ite (.failed .id) (.yields _ .id) fun st u hu => by rw [hpend st u hu]
  | ahead p =>
    refine .cases (part List.mem_cons_self) (fun st _ => .yields _ (.moveTo st.cursor))
      (fun st => .failed (.moveTo st.cursor)) ?_
    rintro st _ ⟨failure, journal, -⟩
    exact ⟨rfl, rfl⟩
  | notAhead p =>
    refine .cases (part List.mem_cons_self) (fun st _ => .failed (.moveTo st.cursor))
      (fun st => .yields _ (.moveTo st.cursor)) ?_
    rintro st _ ⟨failure, journal, -⟩
    exact ⟨rfl, rfl⟩
  | kleene p =>
    simp only [step, Grammar.rename, Grammar.rename_ty]
    exact times_simulates hpend (part List.mem_cons_self) p.ty 0 none
  | plus p =>
    simp only [step, Grammar.rename, Grammar.rename_ty]
    exact times_simulates hpend (part List.mem_cons_self) p.ty 1 none
  | times min max p =>
    simp only [step, Grammar.rename, Grammar.rename_ty]
    exact times_simulates hpend (part List.mem_cons_self) p.ty min max
  | seek p => exact seek_simulates hpend (part List.mem_cons_self)
  | expect p => exact hexpect p rfl
  | action p a => exact action_simulates hlike hskips (part List.mem_cons_self) a
  | raw p =>
    simp only [step, Grammar.rename]
    refine hskips.afterSkip (fun st => ?_) ?_
    · refine .cases (part List.mem_cons_self) (fun st1 v => .matched .id ?_)
        (fun _ => .failed (.moveTo st.cursor)) ?_
      · rintro st2 _ ⟨failure, journal, -⟩
        rfl
      · rintro st1 _ ⟨failure, journal, -⟩
        exact ⟨rfl, rfl⟩
    · rintro st _ ⟨failure, journal, -⟩
      rfl
  | discard p =>
    exact .cases (part List.mem_cons_self) (fun _ _ => .yields _ .id) (fun _ => .failed .id)
      fun _ _ _ => ⟨rfl, rfl⟩
  | flag p =>
    exact .cases (part List.mem_cons_self) (fun _ _ => .yields _ .id) (fun _ => .yields _ .id)
      fun _ _ _ => ⟨rfl, rfl⟩
  | into ty p =>
    simp only [step, Grammar.rename, Grammar.rename_ty]
    exact .cases (part List.mem_cons_self) (fun _ _ => .yields _ .id) (fun _ => .failed .id)
      fun _ _ _ => ⟨rfl, rfl⟩
  | narrow ty k p => exact narrow_simulates (part List.mem_cons_self) k
  | lexeme p =>
    refine hskips.afterSkip (fun st => ?_) ?_
    · exact .cases (below List.mem_cons_self (L.skipping hctx false)) (fun _ v => .yields v .id)
        (fun _ => .failed (.moveTo st.cursor)) fun _ _ _ => ⟨rfl, rfl⟩
    · rintro st _ ⟨failure, journal, -⟩
      rfl
  | noSkip p => exact below List.mem_cons_self (L.skipping hctx false)
  | skip p => exact below List.mem_cons_self (L.skipping hctx true)
  | skipWith s p => exact below (by simp [Grammar.children]) (L.skipWith hg hctx)
  | noCase p => exact below List.mem_cons_self (L.noCase hctx true)
  | bind key b p =>
    have hbound (b : Bound) := below (q := p) List.mem_cons_self (L.bind hctx key b)
    cases b with
    | own v => exact hbound _
    | annotations => exact hbound _
    | shared id initial => exact (hbound _).after (.openCell id initial)
    | fresh initial =>
      have hopen : T.Keeps (fun st => { st with locals := initial :: st.locals })
          (fun u => { u with locals := initial :: u.locals }) :=
        .frame (fun _ => rfl) fun _ _ _ => ⟨_, rfl⟩
      have hdrop : T.Keeps (fun st => { st with locals := st.locals.drop 1 })
          (fun u => { u with locals := u.locals.drop 1 }) :=
        .frame (fun _ => rfl) fun _ _ _ => ⟨_, rfl⟩
      -- the level of the cell is the same in tied states
      intro st
      have hcell := (hbound (.cell (.fresh st.locals.length))).after hopen
      refine Simulates.congr (hcell.mapState hdrop st) fun u hu => ?_
      cases hu
      rfl
  | hide key p => exact below List.mem_cons_self (L.hide hctx key)
  | rule r =>
    have hout := L.varTy hctx none
    intro st
    refine rule_meets (fun d hd => ?_) (fun hnone => ?_)
    · obtain ⟨d', hd', hrenamed⟩ := L.rule hg hctx hd
      have hcall := call_simulates (L.alike hout).inSight hrenamed (hskip _ _ hout)
        (h _ _ _ (L.body hg hctx hd) (L.varTy hout (some r.ty)))
        fun start => L.miss start (.inl hg) hout
      refine Simulates.congr (hcall st) fun u hu => ?_
      simp only [step, Grammar.rename, rule, Rule.rename_name, hd']
      rfl
    · refine Simulates.congr (Simulates.stopped (.undefinedRule r.name) st) fun u hu => ?_
      obtain ⟨hname, hnone'⟩ := L.undefined hg hctx hnone
      simp only [step, Grammar.rename, rule, Rule.rename_name, hname, hnone']
  | define r force body =>
    have hin := L.define hg (L.varTy hctx none)
    exact call_simulates (L.alike hin).inSight (.of_flags body (.inl rfl)) (hskip _ _ hin)
      (below List.mem_cons_self (L.varTy hin (some r.ty)))
      fun start => L.miss start (.inr ⟨force, body, hg⟩) hin
  | group p => exact part List.mem_cons_self
  | «sealed» hasAction p => exact part List.mem_cons_self

end Node

/-! ## One grammar in both parses -/

/-- The contexts differ in whether failures are recorded, and in nothing else that a parse can look
    at. -/
structure Ctx.Twins (ctx ctx' : Ctx) : Prop where
  alike : ctx.Alike ctx'
  injected : ∀ name, ctx'.chain.injected? name = ctx.chain.injected? name

theorem Ctx.Twins.refl (c : Ctx) : c.Twins c := ⟨⟨rfl, rfl, rfl, rfl, rfl⟩, fun _ => rfl⟩

theorem Ctx.Twins.inject {c c' : Ctx} (h : c.Twins c') (name : String) (d : Definition) :
    (c.inject name d).Twins (c'.inject name d) := by
  refine ⟨{ h.alike with }, fun other => ?_⟩
  simp only [Ctx.inject, Chain.injected?, h.injected]

/-- Discipline under which everything is. -/
def Discipline.any : Discipline where
  node _ := True
  skipper _ := True
  body _ := True
  child _ _ := trivial
  skipWith _ := trivial
  define _ := trivial
  ofBody _ := trivial

theorem Discipline.any_env (env : Env) : env.Under .any := fun _ _ _ _ => trivial

theorem Discipline.any_ctx (ctx : Ctx) : ctx.Under .any :=
  ⟨fun _ _ => trivial, fun _ _ _ => trivial⟩

/-- In tied states no failure is on record where failures are recorded. -/
def Tie.Quiet (T : Tie) (b b' : Bool) : Prop :=
  ∀ st u, T.Same st u → (b && st.failure.isSome) = false ∧ (b' && u.failure.isSome) = false

/-- Nothing is reported unless a failure is pending. -/
theorem Node.missRule_of_not_pending {env : Env} {ctx : Ctx} {r : Rule} {start : Nat} {st : State}
    (h : (ctx.tracking && st.failure.isSome) = false) : missRule env ctx r start st = st := by
  unfold missRule
  split
  · rename_i ht hf
    rw [ht, hf] at h
    cases h
  · rfl

/-- Two parses with one grammar, which record failures or not, as long as there are none. -/
def Lockstep.twins (env : Env) (T : Tie) (D : Discipline) (henv : env.Under D) {b b' : Bool}
    (hquiet : T.Quiet b b') : Lockstep env id T where
  node := D.node
  ctx c c' := c.Twins c' ∧ c.Under D ∧ c.tracking = b ∧ c'.tracking = b'
  child := D.child
  alike h := h.1.alike
  pending := by
    rintro c c' ⟨-, -, rfl, rfl⟩ st u hu
    exact (hquiet st u hu).2.trans (hquiet st u hu).1.symm
  like := by
    rintro c c' c1 c1' ⟨htwins, hunder, rfl, rfl⟩ h1 h1' halike
    refine ⟨⟨halike, fun name => ?_⟩, hunder.like h1, h1.tracking, h1'.tracking⟩
    rw [h1'.injected, h1.injected, htwins.injected]
  skipWith := by
    rintro s p c c' hg ⟨htwins, hunder, hb, hb'⟩
    rw [Grammar.rename_id]
    refine ⟨⟨{ htwins.alike with skipper := rfl, skipping := rfl }, htwins.injected⟩,
      ⟨fun s' hs' => ?_, hunder.injected⟩, hb, hb'⟩
    cases hs'
    exact D.skipWith hg
  define := by
    rintro r force body c c' hg ⟨htwins, hunder, hb, hb'⟩
    rw [Grammar.rename_id]
    exact ⟨htwins.inject _ _, hunder.inject (D.define hg), hb, hb'⟩
  rule := by
    rintro r c c' d - ⟨htwins, -⟩ hd
    exact ⟨d, by rwa [id_eq, htwins.injected], .refl r d⟩
  undefined := by
    rintro r c c' - ⟨htwins, -⟩ hnone
    exact ⟨rfl, by rwa [htwins.injected]⟩
  body hg h hd := D.ofBody (h.2.1.body henv hg hd)
  miss := by
    rintro r c c' start - ⟨-, -, rfl, rfl⟩
    refine ⟨fun st hkeep => by rwa [Node.missRule_failure] at hkeep, fun {st u} hu => ?_⟩
    have hq := hquiet st u hu
    rwa [Node.missRule_of_not_pending hq.1, Node.missRule_of_not_pending hq.2]

/-- One node of the grammar in both parses. -/
theorem Lockstep.twins_step {env : Env} {T : Tie} {D : Discipline} (henv : env.Under D)
    {b b' : Bool} (hquiet : T.Quiet b b') (rec rec' : Grammar → Ctx → Step)
    (h : ∀ q c c', D.node q → (twins env T D henv hquiet).ctx c c' →
      T.Simulates (rec q c) (rec' q c'))
    (hroot : ∀ s, T.Simulates (rec s Ctx.root) (rec' s Ctx.root)) {g : Grammar} {c c' : Ctx}
    (hg : D.node g) (hc : (twins env T D henv hquiet).ctx c c')
    (hexpect : ∀ p, g = .expect p →
      T.Simulates (Node.expect env rec c p) (Node.expect env rec' c' p)) :
    T.Simulates (Node.step env rec g c) (Node.step env rec' g c') := by
  have hstep := Node.step_simulates (twins env T D henv hquiet) rec rec'
    (fun q c c' hq hc => by rw [Grammar.rename_id]; exact h q c c' hq hc)
    (fun c c' hc => Node.skipOver_leads hc.1.alike hroot) hg hc
    (fun p hp => by rw [Grammar.rename_id]; exact hexpect p hp)
  rwa [Grammar.rename_id] at hstep

theorem Node.expect_untracked {env : Env} {rec : Grammar → Ctx → Step} {ctx : Ctx} {p : Grammar}
    (h : ctx.tracking = false) : expect env rec ctx p = rec p ctx := by
  funext st
  simp only [expect, h]
  cases rec p ctx st <;> rfl

theorem parse_eq_step (env : Env) (n : Nat) (g : Grammar) (ctx : Ctx) :
    parse env (n + 1) g ctx = Node.step env (parse env n) g ctx := by
  funext st
  exact parse_succ env n g ctx st

/-- A parse that records no failures does not depend on the failure on record or the journal. -/
theorem parse_untracked (T : Tie) (env : Env) (n : Nat) (g : Grammar) {ctx ctx' : Ctx}
    (htwins : ctx.Twins ctx') (ht : ctx.tracking = false) (ht' : ctx'.tracking = false) :
    T.Simulates (parse env n g ctx) (parse env n g ctx') := by
  induction n generalizing g ctx ctx' with
  | zero => exact .stopped .exhausted
  | succ n ih =>
    rw [parse_eq_step, parse_eq_step]
    refine Lockstep.twins_step (Discipline.any_env env) (fun _ _ _ => ⟨rfl, rfl⟩) _ _
      (fun q c c' _ hc => ih q hc.1 hc.2.2.1 hc.2.2.2) (fun s => ih s (.refl _) rfl rfl) trivial
      ⟨htwins, Discipline.any_ctx ctx, ht, ht'⟩ fun p _ => ?_
    rw [Node.expect_untracked ht, Node.expect_untracked ht']
    exact ih p htwins ht ht'

end Peg
