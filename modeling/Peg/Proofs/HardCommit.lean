/-
  Peg.Proofs.HardCommit

  A commit point that misses decides the parse. Every node that could try
  something else looks at the failure on record first, and gives up when there is
  one; the nodes that do not look, a negation, a test for a match and what a
  difference takes away, may not hold commit points or rules. Skippers record no
  failures, but they go on running after a miss, and so they may not hold actions,
  nor definitions of rules that have a hook for matches (`commit_not_final`).
-/
import Peg.Grammar.Notation
import Peg.Proofs.Journal
import Peg.Proofs.Rollback
import Peg.Proofs.Runs

namespace Peg

/-! ## Grammars whose commit points decide -/

namespace Grammar

/-- A commit point, or a rule that may lead to one. -/
def mayMiss : Grammar → Bool
  | .expect _ | .rule _ => true
  | _ => false

/-- The grammar has no commit points, and calls no rules that could. -/
def Silent (g : Grammar) : Prop := g.All (·.mayMiss = false)

instance (g : Grammar) : Decidable g.Silent := inferInstanceAs (Decidable (g.All _))

theorem not_silent_expect (p : Grammar) : ¬ (Grammar.expect p).Silent := fun h => nomatch h.self

theorem not_silent_rule (r : Rule) : ¬ (Grammar.rule r).Silent := fun h => nomatch h.self

/-- The node runs an action, or calls a rule by its name. -/
def mayAct : Grammar → Bool
  | .action _ _ | .rule _ => true
  | _ => false

/-- The node runs no action, calls no rule by its name, and defines none that has a hook for
    matches: of what a definition does with the handle of its rule, only that hook counts here. -/
def runsNoHook : Grammar → Bool
  | .action _ _ | .rule _ => false
  | .define r _ _ => r.onSuccess.isNone
  | _ => true

/-- The grammar can be a skipper: nothing in it runs an action or a hook for matches. -/
def Calm (g : Grammar) : Prop := g.All (·.runsNoHook = true)

instance (g : Grammar) : Decidable g.Calm := inferInstanceAs (Decidable (g.All _))

/-- The node does not look past a miss: what it negates or tests for is silent, and the skipper
    that it puts in force is calm. -/
def commits : Grammar → Bool
  | .notAhead q | .flag q | .diff _ q => decide q.Silent
  | .skipWith s _ => decide s.Calm
  | _ => true

end Grammar

/-- Grammars in which misses are final. -/
def committed : Discipline where
  node g := g.All (·.commits = true)
  skipper := Grammar.Calm
  body g := g.All (·.commits = true)
  child h hq := h.child hq
  skipWith h := of_decide_eq_true h.self
  define h := h.child List.mem_cons_self
  ofBody h := h

/-- Skippers that run no hooks. -/
def calm : Discipline where
  node := Grammar.Calm
  skipper := Grammar.Calm
  body := Grammar.Calm
  child h hq := h.child hq
  skipWith h := h.child List.mem_cons_self
  define h := h.child List.mem_cons_self
  ofBody h := h

/-- Where failures are tracked, misses are final; elsewhere no hooks run. -/
def commitDiscipline (tracking : Bool) : Discipline := if tracking then committed else calm

theorem commitDiscipline_env {env : Env} (henv : env.Under committed) (tracking : Bool) :
    env.Under (commitDiscipline tracking) := by
  cases tracking with
  | true => exact henv
  | false => exact fun r _ hr _ => nomatch Grammar.All.self hr

/-- Skippers run untracked, and all else as the node does. -/
theorem Runs.keeps_commitDiscipline {env : Env} {g q : Grammar} {ctx ctx' : Ctx} {moved : Bool}
    (h : Runs env g ctx moved q ctx') (henv : env.Under committed)
    (hg : (commitDiscipline ctx.tracking).node g)
    (hctx : ctx.Under (commitDiscipline ctx.tracking)) :
    (commitDiscipline ctx'.tracking).node q ∧
      ctx'.Under (commitDiscipline ctx'.tracking) := by
  obtain ⟨hctx', ⟨hq, ht⟩ | ⟨hq, rfl⟩⟩ := h.under (commitDiscipline_env henv _) hg hctx
  · rw [ht]
    exact ⟨hq, hctx'⟩
  · have hcalm : q.Calm := by
      cases ht : ctx.tracking <;> rw [ht] at hq <;> exact hq
    exact ⟨hcalm, Ctx.root_under⟩

/-! ## Ways to end -/

/-- A parser `g` that did not match: the parse is clean so far, or a commit point in `g` missed. -/
def State.Ends (b : Bool) (g : Grammar) (st st' : State) : Prop :=
  st.Clean b st' ∨ b = true ∧ ¬ g.Silent ∧ st.Broken st'

/-- No commit point misses from `st` to `st'`. -/
def State.Unbroken (st st' : State) : Prop :=
  ∃ new, st'.journal = new ++ st.journal ∧ ∀ i ∈ new, i.isMiss = false

/-- A match is clean, and so is a halt at a rule without a definition, up to the calls that are
    open. -/
def Commits (b : Bool) (g : Grammar) (st : State) : Post :=
  ⟨fun _ st' => st.Clean b st', st.Ends b g, fun h => h.Undefined → b = true ∧ st.Unbroken h.state⟩

variable {b : Bool} {c : Cursor} {g q : Grammar} {st st1 st2 : State}

theorem State.Unbroken.refl (st : State) : st.Unbroken st := ⟨[], rfl, nofun⟩

theorem State.Clean.unbroken (h : st.Clean b st1) (h' : st1.Unbroken st2) : st.Unbroken st2 := by
  obtain ⟨-, -, new, hj, hnew⟩ := h
  obtain ⟨new', hj', hnew'⟩ := h'
  refine ⟨new' ++ new, ?_, fun i hi => ?_⟩
  · rw [hj', hj, List.append_assoc]
  · obtain hi | hi := List.mem_append.mp hi
    · exact hnew' i hi
    · exact Incident.isMiss_of_isClean (hnew i hi)

/-- The beginning of a call is no miss. -/
theorem State.Unbroken.enter {rule : String} (h : (st.mark (.entered rule)).Unbroken st1) :
    st.Unbroken st1 := by
  obtain ⟨new, hj, hnew⟩ := h
  refine ⟨new ++ [.entered rule], ?_, fun i hi => ?_⟩
  · rw [hj, State.mark_journal]
    simp
  · obtain hi | hi := List.mem_append.mp hi
    · exact hnew i hi
    · obtain rfl := List.mem_singleton.mp hi
      rfl

/-- Where the failure on record was none, it is none after a clean parse. -/
theorem State.Clean.ready (h : st.Clean b st1) (hs : b = true → st.failure = none) :
    b = true → st1.failure = none := fun hb => h.failure.trans (hs hb)

namespace State.Ends

/-- What is below a node ends as the node does, when the node is clean until then. -/
theorem after (h : st.Clean b st1) (h' : st1.Ends b q st2) (hsilent : g.Silent → q.Silent) :
    st.Ends b g st2 := by
  obtain h' | ⟨hb, hq, h'⟩ := h'
  · exact .inl (h.trans h')
  · exact .inr ⟨hb, fun hg => hq (hsilent hg), .of_clean h h'⟩

/-- Nothing happens that the journal or the failure on record tells. -/
theorem congr (h : st.Ends b g st1) (hj : st2.journal = st1.journal)
    (hf : st2.failure = st1.failure) : st.Ends b g st2 := by
  obtain h | ⟨hb, hg, h⟩ := h
  · exact .inl (h.trans (.of_eq hj hf))
  · exact .inr ⟨hb, hg, h.congr hj hf⟩

/-- A silent parser ends clean. -/
theorem clean (h : st.Ends b g st1) (hg : b = true → g.Silent) : st.Clean b st1 := by
  obtain h | ⟨hb, hnot, -⟩ := h
  · exact h
  · exact absurd (hg hb) hnot

/-- Without a failure that is pending the parse is clean. -/
theorem clean_of_not_pending {ctx : Ctx} (h : st.Ends ctx.tracking g st1)
    (hp : st1.pending ctx = false) : st.Clean ctx.tracking st1 := by
  obtain h | ⟨hb, -, h⟩ := h
  · exact h
  · rw [State.pending, hb, h.failure] at hp
    cases hp

end State.Ends

/-- After a clean parse, a parser commits for the node that runs it. -/
theorem Outcome.Meets.commits {o : Outcome} (h : st.Clean b st1) (ho : o.Meets (Commits b q st1))
    (hsilent : g.Silent → q.Silent) : o.Meets (Commits b g st) :=
  ho.mono (fun _ _ h' => h.trans h') (fun _ h' => .after h h' hsilent)
    (fun _ hh hu => ⟨(hh hu).1, h.unbroken (hh hu).2⟩)

namespace Node

variable {env : Env} {rec : Grammar → Ctx → Step} {ctx : Ctx}

/-- The parsers that a node runs commit, if no failure is on record where they track failures. -/
def PartsCommit (env : Env) (rec : Grammar → Ctx → Step) (g : Grammar) (ctx : Ctx) : Prop :=
  ∀ {moved : Bool} {q : Grammar} {ctx' : Ctx}, Runs env g ctx moved q ctx' →
    ∀ st, (ctx'.tracking = true → st.failure = none) →
      (rec q ctx' st).Meets (Commits ctx'.tracking q st)

section Step

variable (h : PartsCommit env rec g ctx)

include h

/-- Skipping is clean, and records no failure. -/
theorem skipOver_clean {ctx' : Ctx} (hctx : ctx'.skipper = ctx.skipper) (st : State) :
    Settles (skipOver env rec ctx' st) (st.Clean false) (¬ ·.Undefined) := by
  refine skipOver_settles (.refl st) fun s _ hs => ?_
  -- the skipper runs in a context of its own, where nothing is tracked
  refine skipLoop_settles (fun _ st1 => st.Clean false st1)
    (fun st1 _ => Halt.not_undefined_exhausted st1) (fun k st1 h1 => ?_) _ _ (.refl st)
  refine (h (.skipper (hctx ▸ hs)) st1 nofun).mono (fun _ st2 h2 => ?_) (fun st2 h2 => ?_)
    (fun _ hh hu => nomatch (hh hu).1)
  · exact ⟨fun _ => h1.trans h2, fun _ => h1.trans h2⟩
  · exact h1.trans (h2.clean nofun)

/-- A part of the node, after a clean parse. -/
theorem part_commits (hq : q ∈ g.parts) {ctx' : Ctx} (hctx : ctx'.Like ctx)
    (hs : ctx.tracking = true → st.failure = none) (h1 : st.Clean ctx.tracking st1) :
    (rec q ctx' st1).Meets (Commits ctx.tracking q st) := by
  have ho := h (.part hq hctx) st1 (hctx.tracking ▸ h1.ready hs)
  rw [hctx.tracking] at ho
  exact ho.commits h1 id

/-- A part of the node commits for the node. -/
theorem part_below (hq : q ∈ g.parts) {ctx' : Ctx} (hctx : ctx'.Like ctx)
    (hs : ctx.tracking = true → st.failure = none) (st1 : State) (h1 : st.Clean ctx.tracking st1) :
    (rec q ctx' st1).Meets (Commits ctx.tracking g st) :=
  (part_commits h hq hctx hs h1).commits (.refl st)
    fun hg => hg.child (Grammar.children_of_parts hq)

end Step

/-! ## Loops -/

section Loops

variable {p d : Step} (hp : ∀ st1, st.Clean b st1 → (p st1).Meets (Commits b g st))
  (hd : ∀ st1, st.Clean b st1 → (d st1).Meets (Commits b g st))

include hp

theorem repeatLoop_ends (n : Nat) (vs : List Value) (h1 : st.Clean b st1) :
    Settles (repeatLoop p n vs st1) (fun r => st.Ends b g r.2) (Commits b g st).halt := by
  refine repeatLoop_settles (fun _ _ st1 => st.Clean b st1)
    (fun _ st1 _ hu => absurd hu (Halt.not_undefined_exhausted st1)) (fun n vs st1 h1 => ?_)
    n vs st1 h1
  exact (hp st1 h1).mono (fun _ _ h2 => ⟨fun _ => .inl h2, fun _ => h2⟩) (fun _ h2 => h2)
    (fun _ hh => hh)

theorem repeatUpTo_ends (n : Nat) (vs : List Value) (h1 : st.Clean b st1) :
    Settles (repeatUpTo p n vs st1) (fun r => st.Ends b g r.2) (Commits b g st).halt := by
  refine repeatUpTo_settles (fun _ _ st1 => st.Clean b st1) (fun _ _ h1 => .inl h1)
    (fun n vs st1 h1 => ?_) n vs st1 h1
  exact (hp st1 h1).mono (fun _ _ h2 => h2) (fun _ h2 => h2) (fun _ hh => hh)

include hd in
theorem listLoop_ends (n : Nat) (vs : List Value) (h1 : st.Clean b st1) :
    Settles (listLoop p d n vs st1) (fun r => st.Ends b g r.2) (Commits b g st).halt := by
  refine listLoop_settles (fun _ _ st1 => st.Clean b st1)
    (fun _ st1 _ hu => absurd hu (Halt.not_undefined_exhausted st1)) (fun n vs st1 h1 => ?_)
    n vs st1 h1
  refine (hd st1 h1).mono (fun _ st2 h2 => ?_) (fun _ h2 => h2) (fun _ hh => hh)
  exact (hp st2 h2).mono (fun _ _ h3 => ⟨fun _ => .inl h3, fun _ => h3⟩)
    (fun _ h3 => h3.congr rfl rfl) (fun _ hh => hh)

end Loops

/-- A repetition that ends with a failure on record does not match. -/
theorem endRepeat_commits {ty : Ty} {min : Nat} {start : Cursor}
    {o : Except Halt (List Value × State)}
    (ho : Settles o (fun r => st.Ends ctx.tracking g r.2) (Commits ctx.tracking g st).halt) :
    (endRepeat ctx ty min start o).Meets (Commits ctx.tracking g st) := by
  rw [meets_endRepeat]
  refine ho.mono (fun r hr => ?_) (fun _ hh => hh)
  split
  · exact hr.congr rfl rfl
  · -- it matches only when nothing is pending, and then it was clean
    rename_i hnot
    exact hr.clean_of_not_pending (Bool.eq_false_iff.mpr fun hp => hnot (.inr hp))

theorem times_commits {p : Step}
    (hp : ∀ st1, st.Clean ctx.tracking st1 → (p st1).Meets (Commits ctx.tracking g st)) (ty : Ty)
    (min : Nat) (max : Option Nat) :
    (times env ctx ty min max p st).Meets (Commits ctx.tracking g st) := by
  cases max with
  | none => exact endRepeat_commits (repeatLoop_ends hp _ [] (.refl st))
  | some n => exact endRepeat_commits (repeatUpTo_ends hp n [] (.refl st))

/-- The search for a place stops at a failure on record. -/
theorem seek_commits {p : Step}
    (hp : ∀ st1, st.Clean ctx.tracking st1 → (p st1).Meets (Commits ctx.tracking g st)) :
    (seek ctx p st).Meets (Commits ctx.tracking g st) := by
  refine seekLoop_meets (fun _ _ st1 => st.Clean ctx.tracking st1) (fun offset rest st1 h1 => ?_)
    _ _ st (.refl st)
  have hplace : st.Clean ctx.tracking (st1.moveTo ⟨offset, rest⟩) := h1.trans (.of_eq rfl rfl)
  refine (hp _ hplace).mono (fun _ _ h2 => h2) (fun st2 h2 => ?_) (fun _ hh => hh)
  exact ⟨fun _ => h2.congr rfl rfl, fun _ _ hpending _ => h2.clean_of_not_pending hpending⟩

/-! ## Rules -/

/-- The hook of a rule for matches, where failures are tracked or there is none. -/
theorem succeed_clean (env : Env) (ctx : Ctx) (r : Rule) (span : Span) (v : Value)
    (hhook : ctx.tracking = false → r.onSuccess.isNone = true) :
    st.Clean ctx.tracking (succeed env ctx r span v st).2 := by
  have hj := succeed_journal env ctx r span v st
  cases hr : r.onSuccess with
  | none =>
    rw [hr] at hj
    exact .of_eq hj (succeed_failure ..)
  | some f =>
    rw [hr] at hj hhook
    cases ht : ctx.tracking with
    | true => exact State.Clean.reward (.refl st) rfl hj (succeed_failure ..)
    | false => exact nomatch hhook ht

/-- A call whose body matched is over. -/
theorem matchRule_commits {r : Rule} {d : Definition} {start : Nat} {v : Value}
    (hhook : ctx.tracking = false → r.onSuccess.isNone = true) (h1 : st.Clean ctx.tracking st1)
    (h2 : (st1.mark (.entered r.name)).Clean ctx.tracking st2) :
    (matchRule env ctx r d st start v st2).Meets (Commits ctx.tracking g st) := by
  have hvar : (st1.mark (.entered r.name)).Clean ctx.tracking { st2 with ruleVar := st.ruleVar } :=
    h2.trans (.of_eq rfl rfl)
  -- the hook runs while the call is open
  have hsucceed := hvar.trans (succeed_clean env ctx r ⟨start, st2.offset⟩
    (fillRule r d st2.ruleVar v) hhook)
  have hdone := h1.trans (hsucceed.close (State.mark_journal ..) (State.mark_failure ..))
  exact matchRule_meets rfl (fun _ => hdone) (.inl (hdone.trans (.of_eq rfl rfl)))

/-- A call whose body did not match is over, and reported if a commit point missed. -/
theorem missRule_ends {r : Rule} {start : Nat} (hs : ctx.tracking = true → st1.failure = none)
    (h1 : st.Clean ctx.tracking st1) (h2 : (st1.mark (.entered r.name)).Ends ctx.tracking q st2)
    (hsilent : g.Silent → q.Silent) :
    st.Ends ctx.tracking g ((missRule env ctx r start st2).mark (.left r.name)) := by
  have hj := missRule_journal env ctx r start st2
  have hf := missRule_failure env ctx r start st2
  obtain h2 | ⟨ht, hq, h2⟩ := h2
  · -- nothing is on record, and so nothing is reported
    have hquiet : (missRule env ctx r start st2).journal = st2.journal := by
      rw [hj]
      split
      · rename_i f ht hfailure
        rw [h2.ready hs ht] at hfailure
        cases hfailure
      · rfl
    exact .inl (h1.trans (h2.close (by rw [State.mark_journal, hquiet]) hf))
  · refine .inr ⟨ht, fun hg => hq (hsilent hg), .of_clean h1 ?_⟩
    obtain ⟨f, hfailure⟩ := Option.isSome_iff_exists.mp h2.failure
    rw [ht, hfailure] at hj
    exact h2.close (congrArg (List.cons (Incident.left r.name)) hj) hf

/-- The call of a rule is over when it ends, and if a commit point missed in it, it was reported
    before that. -/
theorem call_commits (h : PartsCommit env rec g ctx)
    (hs : ctx.tracking = true → st.failure = none) {r : Rule} {d : Definition} {ctx' : Ctx}
    (hskipper : ctx'.skipper = ctx.skipper) (htracking : ctx'.tracking = ctx.tracking)
    (hhook : ctx.tracking = false → r.onSuccess.isNone = true)
    (hbody : Runs env g ctx false d.body { ctx' with varTy := some r.ty })
    (hsilent : g.Silent → d.body.Silent) :
    (call env rec r d ctx' st).Meets (Commits ctx.tracking g st) := by
  rw [← htracking] at hs hhook ⊢
  rw [meets_call]
  refine (skipOver_clean h hskipper st).mono (fun st1 h1 => ?_) (fun _ hh hu => absurd hu hh)
  have h1 : st.Clean ctx'.tracking st1 := h1.mono
  -- the body begins with the call open
  have hopen : (st1.mark (.entered r.name)).Clean ctx'.tracking
      { st1.mark (.entered r.name) with ruleVar := Value.default r.ty } := .of_eq rfl rfl
  refine (h hbody { st1.mark (.entered r.name) with ruleVar := Value.default r.ty }
    fun ht => h1.ready hs ht).mono (fun v st2 h2 => ?_) (fun st2 h2 => ?_) (fun hlt hh hu => ?_)
  · exact matchRule_commits hhook h1 (hopen.trans h2)
  · have hmissed : (st1.mark (.entered r.name)).Ends ctx'.tracking d.body st2 :=
      .after hopen h2 id
    exact (missRule_ends (h1.ready hs) h1 hmissed hsilent).congr rfl rfl
  · obtain ⟨ht, hunbroken⟩ := hh hu
    exact ⟨ht, h1.unbroken (.enter (hopen.unbroken hunbroken))⟩

/-! ## Nodes -/

/-- Where failures are not tracked, in a skipper, no node runs hooks or calls rules by name. -/
theorem tracked_of_hook (hcalm : ctx.tracking = false → g.runsNoHook = true)
    (hg : g.runsNoHook = false) : ctx.tracking = true := by
  cases ht : ctx.tracking with
  | true => rfl
  | false => exact absurd (hcalm ht) (Bool.eq_false_iff.mp hg)

/-- One node commits if the parsers that it runs do. -/
theorem step_commits (h : PartsCommit env rec g ctx) (hs : ctx.tracking = true → st.failure = none)
    (hcommits : ctx.tracking = true → g.commits = true)
    (hcalm : ctx.tracking = false → g.runsNoHook = true) :
    (step env rec g ctx st).Meets (Commits ctx.tracking g st) := by
  have hskip := skipOver_clean h rfl st
  have here : st.Clean ctx.tracking st := .refl st
  cases g with
  | terminal t =>
    rw [step, meets_afterSkip]
    refine hskip.mono (fun st1 h1 => ?_) (fun _ hh hu => absurd hu hh)
    have h1 : st.Clean ctx.tracking st1 := h1.mono
    exact takeTerminal_meets (.inl (h1.trans (.of_eq rfl rfl)))
      (fun _ _ _ _ _ => h1.trans (.of_eq rfl rfl)) (fun _ _ _ _ hu =>
        absurd hu (Halt.not_undefined_offBoundary _ _))
  | eps c =>
    have hc : st.Clean ctx.tracking (condition c st).2 := by
      rw [condition_eq]
      exact .of_eq rfl rfl
    rw [meets_eps]
    split
    · exact (skipOver_clean h rfl _).mono (fun _ h1 => hc.trans h1.mono)
        (fun _ hh hu => absurd hu hh)
    · exact .inl hc
  | attr ty v => exact here
  | seq ps =>
    refine seqLoop_meets
      (fun qs _ st1 => ∃ before, ps = before ++ qs ∧ st.Clean ctx.tracking st1)
      (fun _ st1 h1 => ?_) (fun p qs slots st1 h1 => ?_) ps [] st ⟨[], rfl, here⟩
    · obtain ⟨before, -, h1⟩ := h1
      exact h1
    · obtain ⟨before, rfl, h1⟩ := h1
      have hp := h (.seq before p qs ctx) st1 (h1.ready hs)
      have hsilent : (Grammar.seq (before ++ p :: qs)).Silent → p.Silent := fun hg =>
        hg.child (List.mem_append_right _ List.mem_cons_self)
      exact (hp.commits h1 hsilent).mono (fun _ _ h2 => ⟨before ++ [p], by simp, h2⟩)
        (fun _ h2 => h2.congr rfl rfl) (fun _ hh => hh)
  | alt p q =>
    rw [step, meets_alt]
    refine (part_below h (by simp [Grammar.parts]) (.refl ctx) hs st here).mono (fun _ _ h1 => h1)
      (fun st1 h1 => ?_) (fun _ hh => hh)
    dsimp only
    split
    · exact h1
    · -- the other branch is tried only after a clean failure
      rename_i hnot
      have h1 := h1.clean_of_not_pending (Bool.eq_false_iff.mpr hnot)
      exact part_below h (by simp [Grammar.parts]) (.refl ctx) hs st1 h1
  | diff p q =>
    rw [step, meets_diff]
    refine (part_commits h (by simp [Grammar.parts]) (.refl ctx) hs here).mono
      (fun _ _ h1 => .inl (h1.trans (.of_eq rfl rfl))) (fun st1 h1 => ?_) (fun _ hh => hh)
    -- what is taken away is silent, and so its failure is clean
    have h1 := h1.clean fun ht => of_decide_eq_true (hcommits ht)
    exact part_below h (by simp [Grammar.parts]) (.refl ctx) hs st1 h1
  | list p d =>
    have hp := part_below (q := p) h (by simp [Grammar.parts]) (.refl ctx) hs
    have hd := part_below (q := d) h (by simp [Grammar.parts]) (.refl ctx) hs
    rw [step, list, Outcome.meets_cases]
    exact (hp st here).mono (fun v st1 h1 => endRepeat_commits (listLoop_ends hp hd _ [v] h1))
      (fun _ h1 => h1) (fun _ hh => hh)
  | opt p =>
    rw [step, meets_opt]
    refine (part_below h List.mem_cons_self (.refl ctx) hs st here).mono (fun _ _ h1 => h1)
      (fun st1 h1 => ?_) (fun _ hh => hh)
    dsimp only
    split
    · exact h1
    · rename_i hnot
      exact h1.clean_of_not_pending (Bool.eq_false_iff.mpr hnot)
  | ahead p =>
    rw [step, meets_ahead]
    exact (part_below h List.mem_cons_self (.refl ctx) hs st here).mono
      (fun _ _ h1 => h1.trans (.of_eq rfl rfl)) (fun _ h1 => h1.congr rfl rfl) (fun _ hh => hh)
  | notAhead p =>
    -- a failure becomes a match, and so it must be clean
    rw [step, meets_notAhead]
    refine (part_commits h List.mem_cons_self (.refl ctx) hs here).mono
      (fun _ _ h1 => .inl (h1.trans (.of_eq rfl rfl))) (fun st1 h1 => ?_) (fun _ hh => hh)
    exact (h1.clean fun ht => of_decide_eq_true (hcommits ht)).trans (.of_eq rfl rfl)
  | kleene p =>
    exact times_commits (part_below h List.mem_cons_self (.refl ctx) hs) p.ty 0 none
  | plus p => exact times_commits (part_below h List.mem_cons_self (.refl ctx) hs) p.ty 1 none
  | times min max p =>
    exact times_commits (part_below h List.mem_cons_self (.refl ctx) hs) p.ty min max
  | seek p => exact seek_commits (part_below h List.mem_cons_self (.refl ctx) hs)
  | expect p =>
    -- the only place where a clean parse breaks; skipping for the record changes neither
    rw [step, meets_expect]
    refine (part_below h List.mem_cons_self (.refl ctx) hs st here).mono (fun _ _ h1 => h1)
      (fun st1 h1 => ?_) (fun _ hh => hh)
    dsimp only
    split
    · rename_i ht
      refine (skipOver_clean h rfl st1).mono (fun st2 h2 => ?_) (fun _ hh hu => absurd hu hh)
      have hbroken : st.Broken (st2.record ⟨st2.offset, p.what⟩) := by
        obtain h1 | ⟨-, -, h1⟩ := h1
        · exact .first (h1.trans h2.mono) _
        · exact (h1.trans h2).again _
      exact .inr ⟨ht, Grammar.not_silent_expect p, hbroken.congr rfl rfl⟩
    · exact h1
  | action p f =>
    have ht := tracked_of_hook hcalm rfl
    rw [step, meets_action]
    refine hskip.mono (fun st1 h1 => ?_) (fun _ hh hu => absurd hu hh)
    refine (part_below h List.mem_cons_self (.refl ctx) hs st1 h1.mono).mono (fun v st2 h2 => ?_)
      (fun st2 h2 => h2.congr rfl rfl) (fun _ hh => hh)
    have h3 : st.Clean ctx.tracking (perform env ctx f ⟨st1.offset, st2.offset⟩ ctx.varTy v
        (st2.mark (.acted ⟨st1.offset, st2.offset⟩))).2 := by
      have h2 : st.Clean ctx.tracking st2 := h2
      rw [ht] at h2 ⊢
      exact h2.reward rfl (perform_journal ..) (perform_failure ..)
    dsimp only
    split
    · exact h3
    · exact .inl (h3.trans (.of_eq rfl rfl))
  | raw p =>
    rw [step, meets_raw]
    refine hskip.mono (fun st1 h1 => ?_) (fun _ hh hu => absurd hu hh)
    exact (part_below h List.mem_cons_self (.refl ctx) hs st1 h1.mono).mono (fun _ _ h2 => h2)
      (fun _ h2 => h2.congr rfl rfl) (fun _ hh => hh)
  | discard p =>
    rw [step, meets_mapValue]
    exact part_below h List.mem_cons_self (.refl ctx) hs st here
  | flag p =>
    rw [step, meets_flag]
    refine (part_commits h List.mem_cons_self (.refl ctx) hs here).mono (fun _ _ h1 => h1)
      (fun st1 h1 => ?_) (fun _ hh => hh)
    exact h1.clean fun ht => of_decide_eq_true (hcommits ht)
  | into ty p =>
    rw [step, meets_mapValue]
    exact part_below h List.mem_cons_self (.refl ctx) hs st here
  | narrow ty f p =>
    rw [step, meets_narrow]
    exact (part_below h List.mem_cons_self (.refl ctx) hs st here).mono
      (fun _ _ h1 => ⟨fun _ _ => h1, fun _ => .inl (h1.trans (.of_eq rfl rfl))⟩) (fun _ h1 => h1)
      (fun _ hh => hh)
  | lexeme p =>
    rw [step, meets_lexeme]
    refine hskip.mono (fun st1 h1 => ?_) (fun _ hh hu => absurd hu hh)
    exact (part_below h List.mem_cons_self (.skipping ctx false) hs st1 h1.mono).mono
      (fun _ _ h2 => h2) (fun _ h2 => h2.congr rfl rfl) (fun _ hh => hh)
  | noSkip p => exact part_below h List.mem_cons_self (.skipping ctx false) hs st here
  | skip p => exact part_below h List.mem_cons_self (.skipping ctx true) hs st here
  | skipWith s p =>
    exact (h (.skipWith s p ctx) st hs).commits here fun hg => hg.child (by simp [Grammar.children])
  | noCase p => exact part_below h List.mem_cons_self (.noCase ctx true) hs st here
  | bind key b p =>
    have hp (bound : Bound) := part_below (q := p) h List.mem_cons_self (.bind ctx key bound) hs
    cases b with
    | own v => exact hp _ st here
    | annotations => exact hp _ st here
    | shared id initial =>
      have hopen : st.Clean ctx.tracking (st.openCell id initial) := by
        rw [State.openCell_eq]
        exact .of_eq rfl rfl
      exact hp _ _ hopen
    | fresh initial =>
      rw [step, bind, meets_mapState]
      have hpush : st.Clean ctx.tracking { st with locals := initial :: st.locals } :=
        .of_eq rfl rfl
      exact (hp _ _ hpush).mono (fun _ _ h1 => h1.trans (.of_eq rfl rfl))
        (fun _ h1 => h1.congr rfl rfl) (fun _ hh => hh)
  | hide key p => exact part_below h List.mem_cons_self (.hide ctx key) hs st here
  | rule r =>
    have ht := tracked_of_hook hcalm rfl
    refine rule_meets (fun d hd => ?_) fun _ _ => ⟨ht, .refl st⟩
    have hbody : Runs env (.rule r) ctx false d.body { ctx.outsideRules with varTy := some r.ty } :=
      .rule hd (.varTy ctx _)
    exact call_commits h hs rfl rfl (fun hf => absurd (hcalm hf) Bool.false_ne_true) hbody
      fun hg => absurd hg (Grammar.not_silent_rule r)
  | define r force body =>
    exact call_commits (d := ⟨body, force⟩) h hs rfl rfl hcalm
      (.define (.varTy (ctx.inject _ _) _)) fun hg => hg.child List.mem_cons_self
  | group p => exact part_below h List.mem_cons_self (.refl ctx) hs st here
  | «sealed» hasAction p => exact part_below h List.mem_cons_self (.refl ctx) hs st here

end Node

/-! ## Whole parses -/

theorem parse_commits {env : Env} (henv : env.Under committed) (n : Nat) (g : Grammar) (ctx : Ctx)
    (st : State) (hg : (commitDiscipline ctx.tracking).node g)
    (hctx : ctx.Under (commitDiscipline ctx.tracking))
    (hs : ctx.tracking = true → st.failure = none) :
    (parse env n g ctx st).Meets (Commits ctx.tracking g st) := by
  -- on the fuel: what a node runs is under the discipline of its own context
  induction n generalizing g ctx st with
  | zero => exact fun hu => absurd hu (Halt.not_undefined_exhausted st)
  | succ n ih =>
    rw [parse_succ]
    refine Node.step_commits (fun h st1 hs1 => ?_) hs (fun ht => ?_) (fun ht => ?_)
    · have hunder := h.keeps_commitDiscipline henv hg hctx
      exact ih _ _ st1 hunder.1 hunder.2 hs1
    · rw [ht] at hg
      exact Grammar.All.self hg
    · rw [ht] at hg
      exact Grammar.All.self hg

/-! ## Runs -/

/-- Misses are final in the grammar and in the bodies of the rules, and the skipper is calm. -/
structure Program.Committed (p : Program) : Prop where
  grammar : p.grammar.All (·.commits = true)
  skipper : ∀ s, p.skipper = some s → s.Calm
  rules : ∀ entry ∈ p.rules, entry.2.body.All (·.commits = true)

/-- The run does not match and ends where it began. After the first miss in the journal no action
    and no hook for matches runs, and the hooks for failures run for the calls that were open at the
    miss, once for each of them and the innermost first. -/
def Program.Run.Unwinds (r : Program.Run) : Prop :=
  r.result.matched = false ∧ r.result.position = 0 ∧
  ∃ before f after, r.journal = before ++ .missed f :: after ∧
    (∀ i ∈ before, i.isMiss = false) ∧ (∀ i ∈ after, i.isReward = false) ∧
    reports after = openCalls before.reverse

/-- A miss decides the run, and a match has no failure on record. -/
def Program.Run.Decided (r : Program.Run) : Prop :=
  ((∃ f, .missed f ∈ r.journal) → r.Unwinds) ∧ (r.result.matched = true → r.result.failure = none)

theorem State.Unbroken.not_missed {st : State} (h : State.Unbroken { cursor := c } st)
    (f : Failure) : .missed f ∉ st.journal := by
  obtain ⟨new, hj, hnew⟩ := h
  rw [hj, List.append_nil]
  exact fun hf => nomatch hnew _ hf

theorem State.Clean.decided {source : Text} {matched : Bool} {slot : Value} {st : State}
    (h : State.Clean b { cursor := .start source } st) :
    (Program.report source matched slot st).Decided := by
  refine ⟨fun ⟨f, hf⟩ => ?_, fun _ => h.failure⟩
  have hunbroken := h.unbroken (.refl st)
  exact absurd (List.mem_reverse.mp hf) (hunbroken.not_missed f)

theorem State.Broken.unwinds {source : Text} {slot : Value} {st : State}
    (h : State.Broken { cursor := .start source } st) (hc : st.cursor = .start source) :
    (Program.report source false slot st).Unwinds := by
  obtain ⟨-, after, f, before, hj, hbefore, hafter, hcalls⟩ := h
  -- the journal of a run is in the order in which things happened
  refine ⟨rfl, congrArg Cursor.offset hc, before.reverse, f, after.reverse, ?_, ?_, ?_, ?_⟩
  · show st.journal.reverse = _
    rw [hj]
    simp
  · exact fun i hi => hbefore i (List.mem_reverse.mp hi)
  · exact fun i hi => hafter i (List.mem_reverse.mp hi)
  · rw [reports_reverse, List.reverse_reverse]
    rw [List.append_nil] at hcalls
    rw [hcalls, openCalls, List.append_nil]

/-- A miss is final, where no node looks past it and no skipper runs an action, calls a rule, or
    defines one that has a hook for matches. When a commit point misses in a tracked run, the run
    does not match and ends where it began, after the miss only the hooks for failures of the calls
    that were open run, each once and the innermost first, and no rule turns out to be undefined any
    more. So a run that matches has no failure on record. -/
theorem commit_final (p : Program) (hp : p.Committed) (fuel : Nat) (options : ParseOptions)
    (ht : options.trackFailures = true) (target : Ty) (slot : Value) (source : Text) :
    Settles (p.runWithin fuel options target slot source)
      (fun r => r.Decided) (fun h => h.Undefined → ∀ f, .missed f ∉ h.state.journal) := by
  have henv : (p.env source).Under committed := fun r d _ hd => hp.rules _ (p.mem_of_env hd)
  have htracking : (p.context options).tracking = true := ht
  have hunder : (p.context options).Under committed := ⟨hp.skipper, nofun⟩
  have hg : (commitDiscipline (p.context options).tracking).node p.grammar := by
    rw [htracking]
    exact hp.grammar
  have hctx : (p.context options).Under (commitDiscipline (p.context options).tracking) := by
    rw [htracking]
    exact hunder
  have hcommits := parse_commits henv fuel p.grammar (p.context options)
    { cursor := .start source } hg hctx fun _ => rfl
  have hrestores := parse_restores (p.env source) fuel p.grammar (p.context options)
    { cursor := .start source }
  refine runWithin_settles ((hcommits.and hrestores).mono (fun v st h1 => ?_) (fun st h1 => ?_)
    (fun hlt hh hu => (hh.1 hu).2.not_missed))
  · -- the skipper after a match misses nothing
    have hclean : State.Clean true { cursor := .start source } st := htracking ▸ h1.1
    have hparts : Node.PartsCommit (p.env source) (parse (p.env source) fuel) p.grammar
        (p.context options) := fun h st1 hs1 =>
      have hnext := h.keeps_commitDiscipline henv hg hctx
      parse_commits henv fuel _ _ st1 hnext.1 hnext.2 hs1
    simp only [Program.afterMatch]
    split
    · exact (Node.skipOver_clean hparts rfl st).mono (fun _ h2 => (hclean.trans h2.mono).decided)
        (fun _ hh hu => absurd hu hh)
    · exact hclean.decided
  · obtain ⟨hclean | ⟨-, -, hbroken⟩, hc⟩ := h1
    · exact hclean.decided
    · exact ⟨fun _ => hbroken.unwinds hc, nofun⟩

/-- A rule whose body ends with a commit point. -/
def innerRule : Rule := { name := "inner", ty := .unused, onSuccess := some fun _ e => e }

/-- A rule that calls the other one. -/
def outerRule : Rule := { name := "outer", ty := .unused, onSuccess := some fun _ e => e }

open Notation in
/-- The outer rule, or else anything. -/
def nested : Program :=
  { grammar := orElse (call outerRule) (act (fun _ e => e) (kleene anyChar))
    skipper := some space
    rules := [(outerRule.name, ⟨lit '(' >>> call innerRule >>> lit ')', false⟩),
      (innerRule.name, ⟨lit 'x' >>> expect 'y', false⟩)] }

/-- The commit point misses while both rules are open. Both are reported, and the other branch is
    not tried. -/
theorem commit_final_nested :
    nested.Committed ∧ ∃ r, nested.runWithin 16 {} .unused .unused "( x z".toList = .ok r ∧
      .missed ⟨4, "'y'"⟩ ∈ r.journal ∧ r.Unwinds ∧ reports r.journal = ["inner", "outer"] := by
  have hp : nested.Committed := by
    refine ⟨by decide, fun s hs => ?_, by decide⟩
    cases hs
    decide
  have h := commit_final nested hp 16 {} rfl .unused .unused "( x z".toList
  refine ⟨hp, _, rfl, ?_, ?_, ?_⟩
  · decide
  · exact h.1 ⟨⟨4, "'y'"⟩, by decide⟩
  · decide

/-- A rule that is told of its matches. -/
def blankRule : Rule := { name := "blank", ty := .unused, onSuccess := some fun _ e => e }

open Notation in
/-- A commit point around one that does not skip, with this skipper. -/
def skippingLate (skipper : Grammar) : Program :=
  { grammar := expect (noSkip (expect 'a')), skipper := some skipper }

open Notation in
/-- After the inner commit point has missed, the outer one skips to the place that it records. A
    skipper that acts nowhere itself, but has the definition of a rule with a hook, runs the hook
    then. And a skipper that calls a rule which nothing around it defines stops the run then, so
    that there is no result. -/
theorem commit_not_final :
    ((skippingLate (defining blankRule (lit ' '))).grammar.All (·.commits = true) ∧
      (defining blankRule (lit ' ')).All (·.mayAct = false) ∧
      ∃ r f after, (skippingLate (defining blankRule (lit ' '))).runWithin 16 {} .unused .unused
          " b".toList = .ok r ∧
        r.journal = .missed f :: after ∧ .succeeded "blank" ⟨0, 1⟩ ∈ after) ∧
    ∃ hlt f, (skippingLate (call blankRule)).runWithin 16 {} .unused .unused "b".toList
        = .error hlt ∧
      hlt.Undefined ∧ .missed f ∈ hlt.state.journal := by
  refine ⟨⟨by decide, by decide, _, _, _, rfl, rfl, by decide⟩, _, ⟨0, "'a'"⟩, rfl, ⟨_, rfl⟩, ?_⟩
  decide

end Peg
