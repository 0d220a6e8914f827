/-
  Peg.Proofs.Idempotence

  Skipping twice is skipping once. The loop around a skipper is over after a run that did
  not move: the skipper failed, which leaves the cursor where it was, or it matched and
  took nothing. A skipper that remembers nothing does the same at this place each time,
  so the place that skipping leads to is one where the skipper rests, in every state and
  for all nodes that skip with it.
-/
import Peg.Grammar.Notation
import Peg.Proofs.Memoryless
import Peg.Proofs.Rollback
import Peg.Proofs.Skipping

namespace Peg

/-! ## Answers of skippers -/

section Answers

variable {env : Env} {g s : Grammar} {c : Ctx} {st st' u : State}

/-- Skipping leads where it leads with fuel enough. -/
theorem skipsTo_iff {q : Cursor} : SkipsTo env c st q ↔
    ∃ st', Node.skipOver env (answer env) c st = .ok st' ∧ st'.cursor = q := by
  constructor
  · rintro ⟨n, st', h, hq⟩
    have hbelow : ExceptBelow Halt.Spent (Node.skipOver env (parse env n) c st)
        (Node.skipOver env (answer env) c st) :=
      Node.skipOver_below (fun g ctx st => parse_below_answer env g ctx st n) c st
    rw [h] at hbelow
    exact ⟨st', (hbelow.eq_of_not fun _ he => nomatch he).symm, hq⟩
  · rintro ⟨st', h, hq⟩
    have hreaches : Reaches ExceptSpent (fun n => Node.skipOver env (parse env n) c st)
        (Node.skipOver env (answer env) c st) :=
      Node.skipOver_reaches (fun g ctx => parse_approach env g ctx) c st
    rw [h] at hreaches
    obtain ⟨hlt, he, -⟩ | hev := hreaches
    · cases he
    · obtain ⟨n, hn⟩ := hev.exists
      exact ⟨n, st', hn, hq⟩

theorem Answers.restores (h : Answers env g c st (.failed st')) : st'.cursor = st.cursor := by
  obtain ⟨-, n, hn⟩ := h
  have hrestores := parse_restores env n g c st
  rw [hn] at hrestores
  exact hrestores

theorem SkipperEnds.inside (h : SkipperEnds env s st st') (hin : st.cursor.In env.source) :
    st'.cursor.In env.source := by
  obtain ⟨v, -, n, hn⟩ | ⟨-, n, hn⟩ := h
  · have hinside := parse_inside env n s Ctx.root st hin
    rw [hn] at hinside
    exact hinside
  · have hinside := parse_inside env n s Ctx.root st hin
    rw [hn] at hinside
    exact hinside

/-- A skipper that remembers nothing stays at a place where it has stayed before. -/
theorem SkipperEnds.again (h : SkipperEnds env s st st') (hs : Forgets env s Ctx.root)
    (hplace : st'.cursor = st.cursor) (hu : u.cursor = st.cursor) :
    ∃ u', SkipperEnds env s u u' ∧ u'.cursor = u.cursor := by
  obtain ⟨v, hv⟩ | hmiss := h
  · obtain ⟨u', hv', hcursor⟩ := hv.matched_there hs (.refl Ctx.root) hu nofun
    refine ⟨u', .inl ⟨v, hv'⟩, ?_⟩
    rw [hcursor, hplace, hu]
  · obtain ⟨u', hmiss'⟩ := hmiss.failed_there hs (.refl Ctx.root) hu nofun
    exact ⟨u', .inr hmiss', hmiss'.restores⟩

/-- The loop is over after a run of the skipper that did not move. -/
theorem skipLoop_last {k : Nat} (hin : st.cursor.In env.source)
    (h : Node.skipLoop (answer env s Ctx.root) k st = .ok st') :
    st'.cursor.In env.source ∧ ∃ st1, SkipperEnds env s st1 st' ∧ st'.cursor = st1.cursor := by
  let Over (st2 : State) : Prop :=
    st2.cursor.In env.source ∧ ∃ st1, SkipperEnds env s st1 st2 ∧ st2.cursor = st1.cursor
  have hloop : Settles (Node.skipLoop (answer env s Ctx.root) k st) Over fun _ => True := by
    refine Node.skipLoop_settles (fun _ st1 => st1.cursor.In env.source) (fun _ _ => trivial) ?_
      k st hin
    intro n st1 hin1
    cases hanswer : answer env s Ctx.root st1 with
    | matched v st2 =>
      have hends : SkipperEnds env s st1 st2 := .inl ⟨v, answers_matched_iff.mpr hanswer⟩
      have hin2 := hends.inside hin1
      exact ⟨fun hstill => ⟨hin2, st1, hends, hin1.eq_of_offset hin2 hstill⟩, fun _ => hin2⟩
    | failed st2 =>
      have hmiss := answers_failed_iff.mpr hanswer
      have hends : SkipperEnds env s st1 st2 := .inr hmiss
      exact ⟨hends.inside hin1, st1, hends, hmiss.restores⟩
    | stopped hlt => trivial
  rw [h] at hloop
  exact hloop

end Answers

/-! ## Resting places -/

/-- Skipping in the context comes to an end, and leaves the cursor where it is. -/
def Rests (env : Env) (c : Ctx) (u : State) : Prop := ∀ q, SkipsTo env c u q ↔ q = u.cursor

section Places

variable {env : Env} {ctx c : Ctx} {st u : State} {q : Cursor}

theorem rests_of_skipOver {u' : State} (h : Node.skipOver env (answer env) c u = .ok u')
    (hplace : u'.cursor = u.cursor) : Rests env c u := by
  intro q
  rw [skipsTo_iff, h]
  constructor
  · rintro ⟨u2, hu2, rfl⟩
    rw [← Except.ok.inj hu2, hplace]
  · rintro rfl
    exact ⟨u', rfl, hplace⟩

variable (hskipper : ∀ s, ctx.skipper = some s → Forgets env s Ctx.root)

include hskipper

/-- Where skipping leads to, all rest that skip with the same skipper, or do not skip. -/
theorem SkipsTo.rests (h : SkipsTo env ctx st q) (hin : st.cursor.In env.source)
    (hsame : c.skipper = ctx.skipper) (hon : c.skipping = true → ctx.skipping = true)
    (hu : u.cursor = q) : Rests env c u := by
  obtain ⟨st', hst', rfl⟩ := skipsTo_iff.mp h
  -- without a skipper, or with skipping off, there is nothing to run
  have hidle (hnone : Node.skipOver env (answer env) c u = .ok u) : Rests env c u :=
    rests_of_skipOver hnone rfl
  cases hc : c.skipping with
  | false =>
    apply hidle
    rw [Node.skipOver, hc]
  | true =>
    cases hs : ctx.skipper with
    | none =>
      apply hidle
      rw [Node.skipOver, hc, hsame, hs]
    | some s =>
      rw [Node.skipOver, hon hc, hs] at hst'
      obtain ⟨hin', st1, hends, hlast⟩ := skipLoop_last hin hst'
      obtain ⟨u', hends', hplace⟩ := hends.again (hskipper s hs) hlast (hu.trans hlast)
      have hskip : Node.skipOver env (answer env) c u = .ok u' := by
        rw [Node.skipOver, hc, hsame, hs]
        apply Node.skipLoop_of_ends hends' hplace
        rw [hu]
        exact hin'
      exact rests_of_skipOver hskip hplace

/-- What the states hold besides the place does not matter for skipping. -/
theorem SkipsTo.of_cursor (h : SkipsTo env ctx st q) (hu : u.cursor = st.cursor) :
    SkipsTo env ctx u q := by
  obtain ⟨n, st', hst', rfl⟩ := h
  have hkeeps : (Ledger.of st u).Leads (Node.skipOver env (parse env n) ctx)
      (Node.skipOver env (parse env n) ctx) :=
    Node.skipOver_keeps (.refl ctx) fun s hs => parse_keeps env n (hskipper s hs) (.refl _) nofun
  have hsettle := hkeeps st u ⟨hu, rfl, rfl, rfl, rfl⟩
  rw [hst'] at hsettle
  generalize ho : Node.skipOver env (parse env n) ctx u = o at hsettle
  cases hsettle with
  | ok hat => exact ⟨n, _, ho, hat.cursor⟩

end Places

/-! ## Skips inside of skips -/

/-- The parser has matched or failed. -/
def Outcome.Ended (o : Outcome) : Prop := ∀ hlt, o ≠ .stopped hlt

/-- A node that skips before its subject, and the context of the subject. -/
inductive SkipsBefore (env : Env) : Grammar → Ctx → Grammar → Ctx → Prop where
  | action (p : Grammar) (f : Action) (c : Ctx) : SkipsBefore env (.action p f) c p c
  | raw (p : Grammar) (c : Ctx) : SkipsBefore env (.raw p) c p c
  | lexeme (p : Grammar) (c : Ctx) :
      SkipsBefore env (.lexeme p) c p { c with skipping := false }
  | rule {r : Rule} {d : Definition} {c : Ctx}
      (h : (c.chain.injected? r.name).or (env.rules r.name) = some d) :
      SkipsBefore env (.rule r) c d.body { c.outsideRules with varTy := some r.ty }
  | define (r : Rule) (force : Bool) (body : Grammar) (c : Ctx) :
      SkipsBefore env (.define r force body) c body
        { c.outsideRules.inject r.name ⟨body, force⟩ with varTy := some r.ty }

/-- A parser that is the subject of a node that skips, or the subject of such a subject, and so
    on. -/
inductive Nested (env : Env) : Grammar → Ctx → Grammar → Ctx → Prop where
  | subject {g p : Grammar} {c d : Ctx} (h : SkipsBefore env g c p d) : Nested env g c p d
  | deeper {g p q : Grammar} {c d e : Ctx} (h : Nested env g c p d)
      (h' : SkipsBefore env p d q e) : Nested env g c q e

section Nested

variable {env : Env} {g p : Grammar} {ctx c d : Ctx} {st : State} {o : Outcome}

theorem Outcome.Ended.of_cases {hit : Value → State → Outcome} {miss : State → Outcome}
    (h : (o.cases hit miss).Ended) : o.Ended := by
  rintro hlt rfl
  exact h hlt rfl

theorem Outcome.Ended.answers (h : (answer env g c st).Ended) :
    Answers env g c st (answer env g c st) := by
  refine (answers_iff ..).mpr ⟨?_, rfl⟩
  rintro ⟨hlt, he, -⟩
  exact h hlt he

theorem Node.ok_of_afterSkip {r : Except Halt State} {k : Step}
    (h : (Node.afterSkip r k).Ended) : ∃ st1, r = .ok st1 ∧ (k st1).Ended := by
  cases r with
  | error hlt => exact absurd rfl (h hlt)
  | ok st1 => exact ⟨st1, rfl, h⟩

/-- The subject of a node skips with the skipper of the node, or does not skip. -/
theorem SkipsBefore.alike (h : SkipsBefore env g c p d) :
    d.skipper = c.skipper ∧ (d.skipping = true → c.skipping = true) := by
  cases h with
  | lexeme => exact ⟨rfl, fun hoff => absurd hoff Bool.false_ne_true⟩
  | action | raw | rule | define => exact ⟨rfl, id⟩

theorem Nested.alike (h : Nested env g c p d) :
    d.skipper = c.skipper ∧ (d.skipping = true → c.skipping = true) := by
  induction h with
  | subject h => exact h.alike
  | deeper _ h' ih => exact ⟨h'.alike.1.trans ih.1, ih.2 ∘ h'.alike.2⟩

/-- The subject begins where skipping has led to. -/
theorem SkipsBefore.begins (h : SkipsBefore env g c p d) (ho : Answers env g c st o)
    (hend : o.Ended) :
    ∃ u o', SkipsTo env c st u.cursor ∧ Answers env p d u o' ∧ o'.Ended := by
  obtain ⟨-, rfl⟩ := answers_iff_step.mp ho
  -- from a place that skipping has led to, the subject comes to an end there
  have begun {st1 u : State} (hskip : Node.skipOver env (answer env) c st = .ok st1)
      (hsubject : (answer env p d u).Ended) (hu : u.cursor = st1.cursor) :
      ∃ u o', SkipsTo env c st u.cursor ∧ Answers env p d u o' ∧ o'.Ended :=
    ⟨u, _, skipsTo_iff.mpr ⟨st1, hskip, hu.symm⟩, hsubject.answers, hsubject⟩
  cases h with
  | action | raw | lexeme =>
    obtain ⟨st1, hskip, hrest⟩ := Node.ok_of_afterSkip hend
    exact begun hskip hrest.of_cases rfl
  | rule hd =>
    simp only [Node.step, Node.rule, hd] at hend
    obtain ⟨st1, hskip, hrest⟩ := Node.ok_of_afterSkip hend
    exact begun hskip hrest.of_cases rfl
  | define =>
    obtain ⟨st1, hskip, hrest⟩ := Node.ok_of_afterSkip hend
    exact begun hskip hrest.of_cases rfl

/-- However deep it is, a subject begins where the outermost node has skipped to. -/
theorem Nested.begins (hskipper : ∀ s, ctx.skipper = some s → Forgets env s Ctx.root)
    (hin : st.cursor.In env.source) (h : Nested env g ctx p c) (ho : Answers env g ctx st o)
    (hend : o.Ended) :
    ∃ u o', SkipsTo env ctx st u.cursor ∧ Answers env p c u o' ∧ o'.Ended := by
  induction h with
  | subject h => exact h.begins ho hend
  | deeper h h' ih =>
    obtain ⟨u, o', hu, ho', hend'⟩ := ih hskipper ho
    obtain ⟨u2, o2, hu2, ho2, hend2⟩ := h'.begins ho' hend'
    -- the node in between has skipped in vain
    have hrests := hu.rests hskipper hin h.alike.1 h.alike.2 rfl
    refine ⟨u2, o2, ?_, ho2, hend2⟩
    rw [(hrests u2.cursor).mp hu2]
    exact hu

end Nested

/-! ## Skipping again -/

/-- What a commit point puts on record is the place that skipping leads to from where it stands. -/
theorem recorded_of_expect {env : Env} {p : Grammar} {ctx : Ctx} {st st' : State}
    (hskipper : ∀ s, ctx.skipper = some s → Forgets env s Ctx.root) (ht : ctx.tracking = true)
    (h : Answers env (.expect p) ctx st (.failed st')) :
    ∃ st2 : State, SkipsTo env ctx st st2.cursor ∧
      st' = (st2.record ⟨st2.offset, p.what⟩).moveTo st.cursor := by
  obtain ⟨-, hstep⟩ := answers_iff_step.mp h
  rw [Node.step, Node.expect] at hstep
  cases hanswer : answer env p ctx st with
  | matched v st1 =>
    rw [hanswer] at hstep
    cases hstep
  | stopped hlt =>
    rw [hanswer] at hstep
    cases hstep
  | failed st1 =>
    have hmiss := answers_failed_iff.mpr hanswer
    rw [hanswer, Outcome.cases_failed, if_pos ht] at hstep
    cases hskip : Node.skipOver env (answer env) ctx st1 with
    | error hlt =>
      rw [hskip] at hstep
      cases hstep
    | ok st2 =>
      -- the subject has left the cursor where it was
      have hthere : SkipsTo env ctx st1 st2.cursor := skipsTo_iff.mpr ⟨st2, hskip, rfl⟩
      rw [hskip] at hstep
      cases hstep
      refine ⟨st2, hthere.of_cursor hskipper hmiss.restores.symm, ?_⟩
      rw [hmiss.restores]

/-- Skipping is idempotent, with any skipper without actions and scripts in it, in the bodies of its
    rules and in the skippers that it puts in force, and whose hooks, if there are any, decide by
    the match alone. Where skipping leads to from a place of the text, skipping again comes to an
    end, and leaves the cursor where it is, whatever the state holds there: that of the same
    context, and that of every context with the same skipper. So when nodes that skip before their
    subjects stand inside of each other, all subjects begin at the place that the outermost node
    has skipped to, and a subject that skips again stays there. A commit point whose subject fails
    records the place that skipping leads to from where it stands, where the skipper rests. -/
theorem skipping_idempotent {env : Env} {ctx : Ctx} {st : State}
    (hin : st.cursor.In env.source)
    (hskipper : ∀ s, ctx.skipper = some s → Forgets env s Ctx.root) :
    (∀ q, SkipsTo env ctx st q → ∀ c u, c.skipper = ctx.skipper →
      (c.skipping = true → ctx.skipping = true) → u.cursor = q → Rests env c u) ∧
    (∀ g p c o, Nested env g ctx p c → Answers env g ctx st o → o.Ended →
      ∃ u o', SkipsTo env ctx st u.cursor ∧ Answers env p c u o' ∧ o'.Ended ∧ Rests env c u) ∧
    ∀ p st', ctx.tracking = true → Answers env (.expect p) ctx st (.failed st') →
      ∃ st2 : State, SkipsTo env ctx st st2.cursor ∧
        st' = (st2.record ⟨st2.offset, p.what⟩).moveTo st.cursor ∧ Rests env ctx st2 := by
  refine ⟨fun q hq c u hsame hon hu => ?_, fun g p c o hnested ho hend => ?_,
    fun p st' ht hmiss => ?_⟩
  · exact hq.rests hskipper hin hsame hon hu
  · obtain ⟨u, o', hu, ho', hend'⟩ := hnested.begins hskipper hin ho hend
    exact ⟨u, o', hu, ho', hend', hu.rests hskipper hin hnested.alike.1 hnested.alike.2 rfl⟩
  · obtain ⟨st2, hst2, hst'⟩ := recorded_of_expect hskipper ht hmiss
    exact ⟨st2, hst2, hst', hst2.rests hskipper hin rfl id rfl⟩

def fillerRule : Rule := { name := "filler", ty := .unused }

open Notation in
/-- Blanks, and dots behind a mark, with dashes anywhere between them; or nothing. -/
def fillerBody : Grammar := kleene space >>> opt (skipWith '-' (lit '#' >>> kleene (lit '.')))

open Notation in
/-- A text with filler before its letter. -/
def fillerEnv : Env :=
  .of "  -#.-. b".toList fun name => if name = "filler" then some ⟨fillerBody, false⟩ else none

/-- Filler is skipped, and failures are tracked. -/
def fillerCtx : Ctx := { skipper := some (.rule fillerRule), tracking := true }

def fillerStart : State := { cursor := .start fillerEnv.source }

theorem fillerRule_forgets : Forgets fillerEnv (.rule fillerRule) Ctx.root := by
  apply Forgets.of_isPlain rfl
  · decide
  · exact Grammar.All.of_single _ (by decide)
  · exact nofun
  · exact nofun

open Notation in
/-- The filler is skipped in several runs, and then not again: neither by the text nor by the lexeme
    in it, nor where the missing letter is on record. -/
theorem skipping_idempotent_filler :
    Forgets fillerEnv (.rule fillerRule) Ctx.root ∧
    SkipsTo fillerEnv fillerCtx fillerStart ⟨8, "b".toList⟩ ∧
    Rests fillerEnv fillerCtx { cursor := ⟨8, "b".toList⟩ } ∧
    (∃ u o', SkipsTo fillerEnv fillerCtx fillerStart u.cursor ∧
      Answers fillerEnv (lit 'b') { fillerCtx with skipping := false } u o' ∧ o'.Ended ∧
      Rests fillerEnv { fillerCtx with skipping := false } u) ∧
    ∃ st' st2 : State, Answers fillerEnv (expect 'c') fillerCtx fillerStart (.failed st') ∧
      SkipsTo fillerEnv fillerCtx fillerStart st2.cursor ∧
      st' = (st2.record ⟨st2.offset, (lit 'c').what⟩).moveTo fillerStart.cursor ∧
      Rests fillerEnv fillerCtx st2 := by
  have hskips : SkipsTo fillerEnv fillerCtx fillerStart ⟨8, "b".toList⟩ := ⟨8, _, rfl, rfl⟩
  have htext : ∃ v st',
      Answers fillerEnv (raw (lexeme 'b')) fillerCtx fillerStart (.matched v st') :=
    ⟨_, _, Outcome.not_spent_matched _ _, 12, rfl⟩
  have hmissing : ∃ st', Answers fillerEnv (expect 'c') fillerCtx fillerStart (.failed st') :=
    ⟨_, Outcome.not_spent_failed _, 12, rfl⟩
  have hnested : Nested fillerEnv (raw (lexeme 'b')) fillerCtx (lit 'b')
      { fillerCtx with skipping := false } := .deeper (.subject (.raw _ _)) (.lexeme _ _)
  obtain ⟨hagain, hinside, hrecord⟩ := @skipping_idempotent fillerEnv fillerCtx fillerStart
    (by decide) fun s hs => Option.some.inj hs ▸ fillerRule_forgets
  obtain ⟨v, st1, htext⟩ := htext
  obtain ⟨st', hmissing⟩ := hmissing
  obtain ⟨st2, hst2, hst', hrests⟩ := hrecord _ st' rfl hmissing
  refine ⟨fillerRule_forgets, hskips, hagain _ hskips _ _ rfl id rfl, ?_, ?_⟩
  · exact hinside _ _ _ _ hnested htext nofun
  · exact ⟨st', st2, hmissing, hst2, hst', hrests⟩

end Peg
