/-
  Peg.Proofs.FurthestFailure

  The furthest failure wins over a whole parse. The failure on record changes only
  when a commit point misses, and the journal tells each miss, so what is on record
  at any time is the fold of the misses so far over what was on record before. The
  fold keeps the furthest record, and of several at one place the latest. Each miss
  is traced back to a commit point that the parse came to, and to the place that the
  skipper led to after its subject failed.
-/
import Mathlib.Data.List.Induction
import Peg.Grammar.Notation
import Peg.Proofs.Course
import Peg.Proofs.Rollback

namespace Peg

/-! ## Records that compete -/

namespace Failure

/-- Of records in the order in which they were made, `f` lies furthest on, and is the latest of
    those that lie there. -/
def IsFurthest (f : Failure) (fs : List Failure) : Prop :=
  ∃ before after, fs = before ++ f :: after ∧ (∀ x ∈ before, x.position ≤ f.position) ∧
    ∀ x ∈ after, x.position < f.position

/-- What is stored stays stored, or gives way to something that lies no less far on. -/
def Advances (stored stored' : Option Failure) : Prop :=
  ∀ f, stored = some f → ∃ f', stored' = some f' ∧ f.position ≤ f'.position

theorem Advances.refl (stored : Option Failure) : Advances stored stored :=
  fun f h => ⟨f, h, Nat.le_refl _⟩

theorem Advances.trans {s s' s'' : Option Failure} (h : Advances s s') (h' : Advances s' s'') :
    Advances s s'' := by
  intro f hf
  obtain ⟨f', hf', hle⟩ := h f hf
  obtain ⟨f'', hf'', hle'⟩ := h' f' hf'
  exact ⟨f'', hf'', Nat.le_trans hle hle'⟩

variable {f g : Failure} {fs : List Failure} {stored : Option Failure}

/-- A record that lies less far on is not taken. -/
theorem record_of_lt (h : f.position < g.position) : record (some g) f = some g := by
  rw [record, shadowed, decide_eq_true h, if_pos rfl]

theorem record_of_le (h : g.position ≤ f.position) : record (some g) f = some f := by
  rw [record, shadowed, decide_eq_false (Nat.not_lt.mpr h)]
  rfl

theorem advances_record (stored : Option Failure) (f : Failure) :
    Advances stored (record stored f) := by
  rintro g rfl
  obtain hlt | hle := Nat.lt_or_ge f.position g.position
  · exact ⟨g, record_of_lt hlt, Nat.le_refl _⟩
  · exact ⟨f, record_of_le hle, hle⟩

theorem advances_foldl (stored : Option Failure) (fs : List Failure) :
    Advances stored (fs.foldl record stored) := by
  induction fs generalizing stored with
  | nil => exact .refl stored
  | cons f fs ih => exact (advances_record stored f).trans (ih _)

theorem foldl_record_toList (stored : Option Failure) (fs : List Failure) :
    (stored.toList ++ fs).foldl record none = fs.foldl record stored := by
  cases stored <;> rfl

theorem foldl_record_none : fs.foldl record none = none ↔ fs = [] := by
  cases fs with
  | nil => exact iff_of_true rfl rfl
  | cons f fs =>
    -- the first record is taken, and from then on something is stored
    obtain ⟨g, hg, -⟩ := advances_foldl (some f) fs f rfl
    refine iff_of_false (fun h => ?_) (List.cons_ne_nil f fs)
    rw [List.foldl_cons, record_none, hg] at h
    cases h

/-- The fold stores the furthest of the records. -/
theorem isFurthest_of_foldl (h : fs.foldl record none = some f) : IsFurthest f fs := by
  -- on the last record, which is stored or lies less far on than what is stored
  induction fs using List.reverseRecOn generalizing f with
  | nil => cases h
  | append_singleton fs g ih =>
    rw [List.foldl_append, List.foldl_cons, List.foldl_nil] at h
    cases hs : fs.foldl record none with
    | none =>
      rw [hs, record_none] at h
      cases h
      rw [foldl_record_none.mp hs]
      exact ⟨[], [], rfl, nofun, nofun⟩
    | some f' =>
      rw [hs] at h
      obtain ⟨before, after, hfs, hbefore, hafter⟩ := ih hs
      obtain hlt | hle := Nat.lt_or_ge g.position f'.position
      · rw [record_of_lt hlt] at h
        cases h
        refine ⟨before, after ++ [g], by rw [hfs]; simp, hbefore, fun x hx => ?_⟩
        obtain hx | hx := List.mem_append.mp hx
        · exact hafter x hx
        · obtain rfl := List.mem_singleton.mp hx
          exact hlt
      · rw [record_of_le hle] at h
        cases h
        refine ⟨fs, [], rfl, fun x hx => ?_, nofun⟩
        have hx' : x.position ≤ f'.position := by
          rw [hfs, List.mem_append, List.mem_cons] at hx
          rcases hx with hx | rfl | hx
          · exact hbefore x hx
          · exact Nat.le_refl _
          · exact Nat.le_of_lt (hafter x hx)
        exact Nat.le_trans hx' hle

/-- Records that lie less far on change nothing. -/
theorem foldl_record_of_lt (h : ∀ x ∈ fs, x.position < f.position) :
    fs.foldl record (some f) = some f := by
  induction fs with
  | nil => rfl
  | cons g fs ih =>
    obtain ⟨hg, hfs⟩ := List.forall_mem_cons.mp h
    rw [List.foldl_cons, record_of_lt hg, ih hfs]

theorem foldl_of_isFurthest (h : IsFurthest f fs) : fs.foldl record none = some f := by
  obtain ⟨before, after, rfl, hbefore, hafter⟩ := h
  have htaken : record (before.foldl record none) f = some f := by
    cases hs : before.foldl record none with
    | none => exact record_none f
    | some g =>
      -- what was stored is one of the records before
      obtain ⟨newer, older, rfl, -⟩ := isFurthest_of_foldl hs
      exact record_of_le (hbefore g (List.mem_append_right _ List.mem_cons_self))
  rw [List.foldl_append, List.foldl_cons, htaken, foldl_record_of_lt hafter]

/-- What the fold stores, with what was stored before it as the first record. -/
theorem foldl_record_eq_some :
    fs.foldl record stored = some f ↔ IsFurthest f (stored.toList ++ fs) := by
  rw [← foldl_record_toList]
  exact ⟨isFurthest_of_foldl, foldl_of_isFurthest⟩

end Failure

/-! ## Misses in the journal -/

/-- The record of a commit point that misses. -/
def Incident.missed? : Incident → Option Failure
  | .missed f => some f
  | _ => none

/-- The records that a journal tells, in the order in which they were made. The journal begins with
    the newest incident. -/
def records (journal : List Incident) : List Failure :=
  (journal.filterMap Incident.missed?).reverse

theorem records_append (new old : List Incident) :
    records (new ++ old) = records old ++ records new := by
  rw [records, List.filterMap_append, List.reverse_append, records, records]

theorem records_eq_nil {journal : List Incident} (h : ∀ f, .missed f ∉ journal) :
    records journal = [] := by
  rw [records, List.reverse_eq_nil_iff, List.filterMap_eq_nil_iff]
  intro i hi
  cases i with
  | missed f => exact absurd hi (h f)
  | _ => rfl

/-- What is on record in `st` once these incidents have happened. -/
def State.onRecord (st : State) (new : List Incident) : Option Failure :=
  (records new).foldl Failure.record st.failure

theorem State.onRecord_append (st : State) (new old : List Incident) :
    st.onRecord (new ++ old) = (records new).foldl Failure.record (st.onRecord old) := by
  rw [onRecord, records_append, List.foldl_append, onRecord]

/-- From `st` to `st'` the journal grows, what is on record is what the misses leave there, and each
    of them was made in a state of which `P` holds, with what was on record at that time. -/
def State.Records (P : State → Failure → Prop) (st st' : State) : Prop :=
  ∃ new, st'.journal = new ++ st.journal ∧ st'.failure = st.onRecord new ∧
    ∀ later f earlier, new = later ++ .missed f :: earlier →
      ∃ st1, st1.journal = earlier ++ st.journal ∧ st1.failure = st.onRecord earlier ∧ P st1 f

namespace State.Records

variable {P R : State → Failure → Prop} {st st1 st2 : State}

/-- Nothing is put on record. -/
theorem quiet (new : List Incident) (hj : st1.journal = new ++ st.journal)
    (hnew : ∀ f, .missed f ∉ new) (hf : st1.failure = st.failure) : st.Records P st1 := by
  refine ⟨new, hj, ?_, fun later f earlier he => ?_⟩
  · rw [hf, onRecord, records_eq_nil hnew]
    rfl
  · refine absurd ?_ (hnew f)
    rw [he]
    exact List.mem_append_right _ List.mem_cons_self

theorem of_eq (hj : st1.journal = st.journal) (hf : st1.failure = st.failure) : st.Records P st1 :=
  quiet [] hj nofun hf

theorem mono (h : st.Records P st1) (hP : ∀ st f, P st f → R st f) : st.Records R st1 := by
  obtain ⟨new, hj, hf, hmisses⟩ := h
  refine ⟨new, hj, hf, fun later f earlier he => ?_⟩
  obtain ⟨st2, hj2, hf2, h2⟩ := hmisses later f earlier he
  exact ⟨st2, hj2, hf2, hP st2 f h2⟩

theorem trans (h : st.Records P st1) (h' : st1.Records P st2) : st.Records P st2 := by
  obtain ⟨new, hj, hf, hmisses⟩ := h
  obtain ⟨new', hj', hf', hmisses'⟩ := h'
  have hrecord (old : List Incident) : st1.onRecord old = st.onRecord (old ++ new) := by
    rw [onRecord_append, ← hf, onRecord]
  refine ⟨new' ++ new, ?_, hf'.trans (hrecord new'), fun later f earlier he => ?_⟩
  · rw [hj', hj, List.append_assoc]
  · -- a miss belongs to the one part or to the other
    obtain ⟨middle, rfl, hm⟩ | ⟨middle, rfl, hm⟩ := List.append_eq_append_iff.mp he
    · exact hmisses middle f earlier hm
    · cases middle with
      | nil => exact hmisses [] f earlier hm.symm
      | cons i middle =>
        rw [List.cons_append, List.cons.injEq] at hm
        obtain ⟨rfl, rfl⟩ := hm
        obtain ⟨st3, hj3, hf3, h3⟩ := hmisses' later f middle rfl
        refine ⟨st3, ?_, hf3.trans (hrecord middle), h3⟩
        rw [hj3, hj, List.append_assoc]

/-- A miss is put on record. -/
theorem record (st : State) {f : Failure} (h : P st f) : st.Records P (st.record f) := by
  refine ⟨[.missed f], rfl, rfl, fun later f' earlier he => ?_⟩
  obtain ⟨rfl, he⟩ | ⟨middle, -, he⟩ := List.cons_eq_append_iff.mp he
  · cases he
    exact ⟨st, rfl, rfl, h⟩
  · exact absurd he (by simp)

/-- Where no miss can be made, what is on record stays. -/
theorem unchanged (h : st.Records P st1) (hP : ∀ st f, ¬ P st f) :
    st1.failure = st.failure ∧
      ∃ new, st1.journal = new ++ st.journal ∧ ∀ f, .missed f ∉ new := by
  obtain ⟨new, hj, hf, hmisses⟩ := h
  have hnew (f : Failure) : .missed f ∉ new := fun hmem => by
    obtain ⟨later, earlier, he⟩ := List.append_of_mem hmem
    obtain ⟨st2, -, -, h2⟩ := hmisses later f earlier he
    exact hP st2 f h2
  refine ⟨?_, new, hj, hnew⟩
  rw [hf, onRecord, records_eq_nil hnew]
  rfl

end State.Records

/-! ## Commit points -/

/-- A commit point that a parser comes to makes the record `f`: its subject failed, and the skipper
    led from where the subject began to the state `st`. -/
def Attempted (env : Env) (g : Grammar) (ctx : Ctx) (st : State) (f : Failure) : Prop :=
  ∃ q ctx' m st0 st1, ComesTo env g ctx (.expect q) ctx' ∧ ctx'.tracking = true ∧
    parse env m q ctx' st0 = .failed st1 ∧ st1.cursor = st0.cursor ∧
    Node.skipOver env (parse env m) ctx' st1 = .ok st ∧ f = ⟨st.offset, q.what⟩

section

variable {env : Env} {g q : Grammar} {ctx ctx' : Ctx} {moved : Bool} {st st1 : State}

theorem Attempted.next (h : Runs env g ctx moved q ctx') (st : State) (f : Failure)
    (hq : Attempted env q ctx' st f) : Attempted env g ctx st f := by
  obtain ⟨q', ctx'', m, st0, st1, hcomes, hrest⟩ := hq
  exact ⟨q', ctx'', m, st0, st1, .next h hcomes, hrest⟩

/-- The parser comes to commit points only where failures are not tracked. -/
def NeverRecords (env : Env) (g : Grammar) (ctx : Ctx) : Prop :=
  ∀ q ctx', ComesTo env g ctx (.expect q) ctx' → ctx'.tracking = false

theorem NeverRecords.of_untracked (ht : ctx.tracking = false) : NeverRecords env g ctx :=
  fun _ _ hcomes => hcomes.untracked ht

theorem NeverRecords.not_attempted (h : NeverRecords env g ctx) (st : State) (f : Failure) :
    ¬ Attempted env g ctx st f := by
  rintro ⟨q, ctx', m, st0, st1, hcomes, ht, -⟩
  rw [h q ctx' hcomes] at ht
  cases ht

/-- On its course a parse puts on record what its commit points make. -/
theorem Course.records (h : Course env g ctx st st1) : st.Records (Attempted env g ctx) st1 := by
  induction h with
  | refl | move | ask => exact .of_eq rfl rfl
  | trans _ _ ih ih' => exact ih.trans ih'
  | @mark _ _ st i hi =>
    refine .quiet [i] rfl (fun f hf => ?_) rfl
    obtain rfl := List.mem_singleton.mp hf
    cases hi
  | perform => exact .of_eq (Node.perform_journal ..) (Node.perform_failure ..)
  | run h _ _ _ ih => exact ih.mono (Attempted.next h)
  | call h _ _ _ ih => exact ih.mono (Attempted.next h)
  | openCell st =>
    rw [State.openCell_eq]
    exact .of_eq rfl rfl
  | fresh _ ih =>
    exact ih.mono (Attempted.next (.part List.mem_cons_self (.bind _ _ _)))
  | @miss p ctx m st0 st1 st2 ht hp hskip =>
    have hcursor := parse_restores env m p ctx st0
    rw [hp] at hcursor
    exact .record st2 ⟨p, ctx, m, st0, st1, .here _ _, ht, hp, hcursor, hskip, rfl⟩

theorem Underway.records (h : Underway env g ctx st st1) :
    st.Records (Attempted env g ctx) st1 := by
  induction h with
  | here h => exact h.records
  | inside h hq hfailure hjournal _ ih =>
    exact (h.records.trans (.of_eq hjournal hfailure)).trans (ih.mono (Attempted.next hq))

/-- Skipping puts nothing on record. -/
theorem Skipped.failure (h : Skipped env ctx st st1) : st1.failure = st.failure ∧
    ∃ new, st1.journal = new ++ st.journal ∧ ∀ f, .missed f ∉ new := by
  obtain rfl | ⟨s, -, h⟩ := h
  · exact ⟨rfl, [], rfl, nofun⟩
  · exact h.records.unchanged (NeverRecords.of_untracked rfl).not_attempted

/-- What runs with tracking is in the grammar, or in a rule of the table or of the context. -/
theorem ComesTo.mem_nodes (h : ComesTo env g ctx q ctx') (ht : ctx'.tracking = true) :
    q ∈ g.nodes ∨ (∃ name d, env.rules name = some d ∧ q ∈ d.body.nodes) ∨
      ∃ name d, ctx.chain.injected? name = some d ∧ q ∈ d.body.nodes := by
  let known (x : Grammar) : Prop :=
    x ∈ g.nodes ∨ (∃ name d, env.rules name = some d ∧ x ∈ d.body.nodes) ∨
      ∃ name d, ctx.chain.injected? name = some d ∧ x ∈ d.body.nodes
  have hnode := h.under_of_tracked (D := .every known (fun _ => True) fun _ _ _ => trivial)
    (fun r d _ hd x hx => .inr (.inl ⟨r.name, d, hd, hx⟩)) (fun x hx => .inl hx)
    ⟨fun _ _ => trivial, fun name d hd x hx => .inr (.inr ⟨name, d, hd, hx⟩)⟩ ht
  exact Grammar.All.self hnode

end

/-! ## Whole parses -/

/-- The state that a parse comes to, however it ends. -/
def Outcome.state : Outcome → State
  | .matched _ st | .failed st => st
  | .stopped h => h.state

theorem parse_underway (env : Env) (n : Nat) (g : Grammar) (ctx : Ctx) (st : State) :
    Underway env g ctx st (parse env n g ctx st).state := by
  have h := parse_course env n g ctx st
  cases hp : parse env n g ctx st with
  | matched v st1 =>
    rw [hp] at h
    exact .here h
  | failed st1 =>
    rw [hp] at h
    exact .here h
  | stopped hlt =>
    rw [hp] at h
    exact h

/-- A parser that records nothing leaves what is on record, however it ends. -/
theorem NeverRecords.failure_eq {env : Env} {g : Grammar} {ctx : Ctx} (h : NeverRecords env g ctx)
    (n : Nat) (st : State) : (parse env n g ctx st).state.failure = st.failure :=
  ((parse_underway env n g ctx st).records.unchanged h.not_attempted).1

/-- Where failures are tracked, a commit point makes its record whenever its subject fails. -/
theorem parse_expect_of_failed {env : Env} {n : Nat} {q : Grammar} {ctx : Ctx}
    {st st1 st2 : State} (ht : ctx.tracking = true) (hp : parse env n q ctx st = .failed st1)
    (hskip : Node.skipOver env (parse env n) ctx st1 = .ok st2) :
    parse env (n + 1) (.expect q) ctx st =
      .failed ((st2.record ⟨st2.offset, q.what⟩).moveTo st1.cursor) := by
  rw [parse_succ, Node.step, Node.expect, hp, Outcome.cases_failed, if_pos ht, hskip]
  rfl

/-- The furthest failure wins over a whole parse, whatever was on record before and however the
    parse ends. What is on record never goes away and never falls back; at the end it is the fold of
    the records made on the way, which is the furthest of them, and the latest of those. Each record
    was made by a commit point of the grammar or of a rule whose subject had failed: it names the
    subject, and its place is where the skipper in force leads from where the subject began. No such
    record is left out, and skippers put nothing on record. -/
theorem furthest_failure_wins (env : Env) (n : Nat) (g : Grammar) (ctx : Ctx) (st : State) :
    (∃ new, (parse env n g ctx st).state.journal = new ++ st.journal ∧
      (∀ later between earlier, new = later ++ (between ++ earlier) →
        Failure.Advances (st.onRecord earlier) (st.onRecord (between ++ earlier))) ∧
      (parse env n g ctx st).state.failure = (records new).foldl Failure.record st.failure ∧
      (∀ f, (parse env n g ctx st).state.failure = some f ↔
        f.IsFurthest (st.failure.toList ++ records new)) ∧
      ∀ later f earlier, new = later ++ .missed f :: earlier →
        ∃ q ctx' m st0 st1 st2, ComesTo env g ctx (.expect q) ctx' ∧ ctx'.tracking = true ∧
          (.expect q ∈ g.nodes ∨ (∃ name d, env.rules name = some d ∧ .expect q ∈ d.body.nodes) ∨
            ∃ name d, ctx.chain.injected? name = some d ∧ .expect q ∈ d.body.nodes) ∧
          parse env m q ctx' st0 = .failed st1 ∧ st1.cursor = st0.cursor ∧
          Node.skipOver env (parse env m) ctx' st1 = .ok st2 ∧
          st2.journal = earlier ++ st.journal ∧ st2.failure = st.onRecord earlier ∧
          f = ⟨st2.offset, q.what⟩) ∧
    (∀ q st1 st2, ctx.tracking = true → parse env n q ctx st = .failed st1 →
      Node.skipOver env (parse env n) ctx st1 = .ok st2 →
        parse env (n + 1) (.expect q) ctx st =
          .failed ((st2.record ⟨st2.offset, q.what⟩).moveTo st1.cursor)) ∧
    ∀ st', Node.skipOver env (parse env n) ctx st = .ok st' → st'.failure = st.failure ∧
      ∃ new, st'.journal = new ++ st.journal ∧ records new = [] := by
  refine ⟨?_, fun q st1 st2 => parse_expect_of_failed, ?_⟩
  · obtain ⟨new, hj, hf, hmisses⟩ := (parse_underway env n g ctx st).records
    refine ⟨new, hj, fun later between earlier _ => ?_, hf, fun f => ?_,
      fun later f earlier he => ?_⟩
    · rw [State.onRecord_append]
      exact Failure.advances_foldl _ _
    · rw [hf, State.onRecord, Failure.foldl_record_eq_some]
    · obtain ⟨st2, hj2, hf2, q, ctx', m, st0, st1, hcomes, ht, hp, hcursor, hskip, hrecord⟩ :=
        hmisses later f earlier he
      exact ⟨q, ctx', m, st0, st1, st2, hcomes, ht, hcomes.mem_nodes ht, hp, hcursor, hskip, hj2,
        hf2, hrecord⟩
  · intro st' h
    have hskipped := skipOver_skipped env n ctx st
    rw [h] at hskipped
    obtain ⟨hf, new, hj, hnew⟩ := hskipped.failure
    exact ⟨hf, new, hj, records_eq_nil hnew⟩

open Notation in
/-- No letter with a mistake after it, and then that letter with another mistake after it. -/
def mistakes : Program :=
  { grammar := notAhead (lit 'a' >>> expect 'b') >>> lit 'a' >>> expect 'c'
    skipper := some space }

/-- Both commit points miss at the same place, further on than what was on record before, and the
    latest one stays on record. It names the subject of a commit point of the grammar. -/
theorem furthest_failure_wins_mistakes :
    ∃ st', parse (mistakes.env "a d".toList) 8 mistakes.grammar (mistakes.context {})
        { cursor := .start "a d".toList, failure := some ⟨1, "digit"⟩ } = .failed st' ∧
      records st'.journal = [⟨2, "'b'"⟩, ⟨2, "'c'"⟩] ∧ st'.failure = some ⟨2, "'c'"⟩ ∧
      Failure.IsFurthest ⟨2, "'c'"⟩ [⟨1, "digit"⟩, ⟨2, "'b'"⟩, ⟨2, "'c'"⟩] ∧
      ∃ q, .expect q ∈ mistakes.grammar.nodes ∧ q.what = "'c'" := by
  obtain ⟨⟨new, hj, -, -, hiff, hmisses⟩, -⟩ := furthest_failure_wins
    (mistakes.env "a d".toList) 8 mistakes.grammar (mistakes.context {})
    { cursor := .start "a d".toList, failure := some ⟨1, "digit"⟩ }
  -- all of the journal is new, since it was empty at the start
  have hnew : new = [.missed ⟨2, "'c'"⟩, .missed ⟨2, "'b'"⟩] := by
    rw [List.append_nil] at hj
    exact hj.symm
  subst hnew
  obtain ⟨q, _, _, _, _, _, -, -, hq, -, -, -, -, -, hf⟩ := hmisses [] ⟨2, "'c'"⟩ _ rfl
  refine ⟨_, rfl, rfl, rfl, (hiff ⟨2, "'c'"⟩).mp rfl, q, ?_, (congrArg Failure.which hf).symm⟩
  -- there are no rules
  obtain hq | ⟨_, _, hd, -⟩ | ⟨_, _, hd, -⟩ := hq
  · exact hq
  · cases hd
  · cases hd

end Peg
