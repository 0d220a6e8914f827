/-
  Peg.Proofs.Skipping

  There are several ways of not skipping: without a skipper, with a skipper that
  never moves, and with skipping switched off. A parse cannot tell them apart as
  long as no node switches skipping on again. A lexeme skips once, and from where
  this leads it is its subject without a skipper.
-/
import Peg.Grammar.Notation
import Peg.Proofs.Answers
import Peg.Proofs.Regimes

namespace Peg

/-! ## Answers of one text -/

/-- What ends alike in one text is the same but for the journal, and it is an answer in both parses
    or in neither. -/
theorem Parallel.Ends.sameButJournal {env : Env} {o o' : Outcome}
    (h : (twin env Halt.Spent).Ends o o') (ho : ¬ o.Spent) :
    ¬ o'.Spent ∧ o.SameButJournal o' := by
  cases h with
  | matched hv h =>
    exact ⟨Outcome.not_spent_matched _ _, hv trivial, twin_identical.eq_of_beside h⟩
  | failed h => exact ⟨Outcome.not_spent_failed _, twin_identical.eq_of_beside h⟩
  | stopped h =>
    rw [Outcome.spent_stopped] at ho ⊢
    exact ⟨ho, rfl, twin_identical.eq_of_beside h⟩
  | lost hspent => exact absurd (Outcome.spent_stopped.mpr hspent) ho

/-- What ends like a step over answers ends like the answer of the node. -/
theorem Parallel.Ends.answer {env : Env} {o o' o'' : Outcome}
    (h : (twin env Halt.Spent).Ends o o') (hsame : o''.Same o') :
    (twin env Halt.Spent).Ends o o'' := by
  obtain rfl | ⟨-, hlt, rfl, hspent⟩ := hsame
  · exact h
  · -- the first parse is out of fuel as well, and there is nothing to follow
    cases h with
    | stopped h => exact .lost hspent
    | lost h => exact .lost h

/-! ## Skippers -/

/-- One run of the skipper is over in the state `st'`, whether it matched or not. -/
def SkipperEnds (env : Env) (s : Grammar) (st st' : State) : Prop :=
  (∃ v, Answers env s Ctx.root st (.matched v st')) ∨ Answers env s Ctx.root st (.failed st')

/-- Where a run of the skipper is over, it has changed nothing but the cursor and the journal. -/
def SideEffectFree (env : Env) (s : Grammar) : Prop :=
  ∀ st st' : State, st.cursor.In env.source → SkipperEnds env s st st' →
    st' = { st with cursor := st'.cursor, journal := st'.journal }

/-- The skipper comes to an end at every place of the text, has no side effects, and never moves the
    cursor. -/
def Idle (env : Env) (s : Grammar) : Prop :=
  ∀ st : State, st.cursor.In env.source → ∃ journal, SkipperEnds env s st { st with journal }

/-- Nothing is skipped in this context: there is no skipper, or it is switched off or idle. -/
def Ctx.NotSkipping (env : Env) (c : Ctx) : Prop :=
  ∀ s, c.skipping = true → c.skipper = some s → Idle env s

/-- Skipping in the context leads from the state to this place. -/
def SkipsTo (env : Env) (c : Ctx) (st : State) (q : Cursor) : Prop :=
  ∃ n st', Node.skipOver env (parse env n) c st = .ok st' ∧ st'.cursor = q

/-- The node switches skipping on. -/
def Grammar.isSkip : Grammar → Bool
  | .skip _ => true
  | _ => false

/-- No node switches skipping on again. -/
def Grammar.SkipFree (g : Grammar) : Prop := g.All (·.isSkip = false)

instance (g : Grammar) : Decidable g.SkipFree := inferInstanceAs (Decidable (g.All _))

namespace Node

variable {env : Env} {c : Ctx} {st : State}

/-- A single run that does not move ends the loop. -/
theorem skipLoop_of_ends {s : Grammar} {st' : State} (h : SkipperEnds env s st st')
    (hplace : st'.cursor = st.cursor) (hin : st.cursor.In env.source) :
    skipLoop (answer env s Ctx.root) (rounds env st) st = .ok st' := by
  have hle : st.offset ≤ env.length := by
    rw [env.length_eq]
    exact hin.isBoundary.le
  have hoffset : st'.offset = st.offset := congrArg Cursor.offset hplace
  obtain ⟨k, hk⟩ : ∃ k, rounds env st = k + 1 := ⟨env.length - st.offset, by rw [rounds]; omega⟩
  rw [hk, skipLoop]
  obtain ⟨v, hv⟩ | hmiss := h
  · rw [answers_matched_iff.mp hv]
    exact if_pos hoffset
  · rw [answers_failed_iff.mp hmiss]

theorem skipLoop_of_idle {s : Grammar} (hs : Idle env s) (hin : st.cursor.In env.source) :
    ∃ journal, skipLoop (answer env s Ctx.root) (rounds env st) st = .ok { st with journal } := by
  obtain ⟨journal, hends⟩ := hs st hin
  exact ⟨journal, skipLoop_of_ends hends rfl hin⟩

theorem skipOver_of_notSkipping (hc : c.NotSkipping env) (hin : st.cursor.In env.source) :
    ∃ journal, skipOver env (answer env) c st = .ok { st with journal } := by
  unfold skipOver
  split
  · rename_i s hskipping hskipper
    exact skipLoop_of_idle (hc s hskipping hskipper) hin
  · exact ⟨st.journal, rfl⟩

/-- Two ways of not skipping. -/
theorem skipOver_leads_of_notSkipping {c' : Ctx} (hc : c.NotSkipping env)
    (hc' : c'.NotSkipping env) (n : Nat) :
    (Parallel.twin env Halt.Spent).Leads (skipOver env (parse env n) c)
      (skipOver env (answer env) c') := by
  intro st u h
  have hbelow : ExceptBelow Halt.Spent (skipOver env (parse env n) c st)
      (skipOver env (answer env) c st) :=
    skipOver_below (fun g ctx st => parse_below_answer env g ctx st n) c st
  obtain ⟨journal, hst⟩ := skipOver_of_notSkipping hc h.cursor.inside
  have hu : u = { st with journal := u.journal } := Parallel.twin_identical.eq_of_beside h
  obtain ⟨journal', hu'⟩ : ∃ journal, skipOver env (answer env) c' u = .ok { u with journal } := by
    apply skipOver_of_notSkipping hc'
    rw [hu]
    exact h.cursor.inside
  rw [hu', hu]
  obtain heq | ⟨hlt, hstop, hspent⟩ := hbelow
  · rw [heq, hst]
    have hin : ({ st with journal } : State).cursor.In env.source := h.cursor.inside
    exact .ok (Parallel.twin_beside hin journal')
  · rw [hstop]
    exact .lost hspent

end Node

/-! ## Parses that do not skip -/

/-- The contexts skip alike, and nothing in force switches skipping on again; or neither skips. -/
structure Ctx.SkipAlike (env : Env) (c c' : Ctx) : Prop where
  abreast : c.Abreast c'
  injected : ∀ name d, c.chain.injected? name = some d → d.body.SkipFree
  skipping : (c'.skipper = c.skipper ∧ c'.skipping = c.skipping ∧
      ∀ s, c.skipper = some s → s.SkipFree) ∨
    c.NotSkipping env ∧ c'.NotSkipping env

/-- Grammars in which nothing switches skipping on again, in contexts that skip alike. -/
def Regime.quiet (env : Env)
    (henv : ∀ name d, env.rules name = some d → d.body.SkipFree) :
    Regime (.twin env Halt.Spent) where
  node := Grammar.SkipFree
  ctx := Ctx.SkipAlike env
  child := Grammar.All.child
  allows _ := Parallel.twin_identical.allows _
  alike h := h.abreast
  scan _ h := Parallel.scan_of_sameValues trivial h.abreast.noCase
  frame chain t h hchain := by
    refine ⟨⟨h.abreast.noCase, h.abreast.tracking, rfl, rfl⟩, fun name d hd => ?_, h.skipping⟩
    exact h.injected name d (hchain name ▸ hd)
  calm h := by
    refine ⟨⟨h.abreast.noCase, h.abreast.tracking, h.abreast.chain, h.abreast.varTy⟩,
      h.injected, ?_⟩
    right
    constructor <;> exact fun s hskipping => nomatch hskipping
  skip hg := nomatch hg.self
  skipWith hg h := by
    refine ⟨⟨h.abreast.noCase, h.abreast.tracking, h.abreast.chain, h.abreast.varTy⟩,
      h.injected, ?_⟩
    left
    refine ⟨rfl, rfl, fun s hs => ?_⟩
    cases hs
    exact hg.child (by simp [Grammar.children])
  noCase h :=
    ⟨⟨rfl, h.abreast.tracking, h.abreast.chain, h.abreast.varTy⟩, h.injected, h.skipping⟩
  define {r force b c c'} hg h := by
    refine ⟨⟨h.abreast.noCase, h.abreast.tracking, ?_, h.abreast.varTy⟩, fun name d hd => ?_,
      h.skipping⟩
    · simp only [Ctx.inject, h.abreast.chain]
    · rw [Ctx.inject, Chain.injected?] at hd
      split at hd
      · cases hd
        exact hg.child List.mem_cons_self
      · exact h.injected name d hd
  body {r c c' d} _ h hd := by
    obtain hd | ⟨-, hd⟩ := Option.or_eq_some_iff.mp hd
    · exact h.injected _ d hd
    · exact henv _ d hd

/-- With any fuel, a parse in the one context ends like the answer in the other. -/
theorem parse_quiet {env : Env} (henv : ∀ name d, env.rules name = some d → d.body.SkipFree)
    (n : Nat) {g : Grammar} (hg : g.SkipFree) {c c' : Ctx} (h : c.SkipAlike env c') :
    (Parallel.twin env Halt.Spent).Simulates (parse env n g c) (answer env g c') := by
  induction n generalizing g c c' with
  | zero =>
    intro st u _
    exact .lost rfl
  | succ n ih =>
    intro st u hst
    rw [parse_succ]
    refine Parallel.Ends.answer ?_ (answer_same env g c' u)
    refine Node.step_simulates_of_regime (Regime.quiet env henv) (fun q c c' hq hc => ih hq hc)
      (fun c c' hc => ?_) hg h st u hst
    obtain ⟨hskipper, hskipping, hfree⟩ | ⟨hc, hc'⟩ := hc.skipping
    · refine Node.skipOver_leads_of_eq hskipper hskipping fun s hs => ih (hfree s hs) ?_
      exact ⟨⟨rfl, rfl, rfl, rfl⟩, nofun, .inl ⟨rfl, rfl, nofun⟩⟩
    · exact Node.skipOver_leads_of_notSkipping hc hc' n

/-- Contexts that differ in the skipper at most, where neither skips, get the same answers. -/
theorem answers_quiet {env : Env} (henv : ∀ name d, env.rules name = some d → d.body.SkipFree)
    {g : Grammar} (hg : g.SkipFree) {c c' : Ctx} (h : c.SkipAlike env c') {st u : State}
    (hst : (Parallel.twin env Halt.Spent).Beside st u) {o : Outcome}
    (ho : Answers env g c st o) : ∃ o', Answers env g c' u o' ∧ o.SameButJournal o' := by
  obtain ⟨hspent, n, rfl⟩ := ho
  have hends := parse_quiet henv n hg h st u hst
  obtain ⟨hspent', hsame⟩ := hends.sameButJournal hspent
  exact ⟨_, (answers_iff ..).mpr ⟨hspent', rfl⟩, hsame⟩

/-- Two ways of not skipping have the same answers. -/
theorem corresponds_of_notSkipping {env : Env}
    (henv : ∀ name d, env.rules name = some d → d.body.SkipFree) {g : Grammar} (hg : g.SkipFree)
    {c c' : Ctx} (hctx : ∀ name d, c.chain.injected? name = some d → d.body.SkipFree)
    (halike : c.Abreast c') (hc : c.NotSkipping env) (hc' : c'.NotSkipping env) {st : State}
    (hin : st.cursor.In env.source) :
    Corresponds Outcome.SameButJournal (Answers env g c st) (Answers env g c' st) := by
  have hst : (Parallel.twin env Halt.Spent).Beside st st :=
    Parallel.twin_beside hin st.journal
  constructor
  · intro o ho
    exact answers_quiet henv hg ⟨halike, hctx, .inr ⟨hc, hc'⟩⟩ hst ho
  · intro o' ho'
    have hctx' : ∀ name d, c'.chain.injected? name = some d → d.body.SkipFree := by
      rw [halike.chain]
      exact hctx
    obtain ⟨o, ho, hsame⟩ :=
      answers_quiet henv hg ⟨halike.symm, hctx', .inr ⟨hc', hc⟩⟩ hst ho'
    exact ⟨o, ho, hsame.symm⟩

/-! ## Lexemes -/

/-- No parse leaves the text. -/
theorem parse_inside (env : Env) (n : Nat) (g : Grammar) (ctx : Ctx) (st : State)
    (hin : st.cursor.In env.source) :
    (parse env n g ctx st).Meets ⟨fun _ st' => st'.cursor.In env.source,
      fun st' => st'.cursor.In env.source, fun _ => True⟩ := by
  have hends := parse_twin env (fun _ => False) n g ctx st st (Parallel.twin_beside hin st.journal)
  revert hends
  generalize parse env n g ctx st = o
  intro hends
  cases hends with
  | matched hv h => exact h.cursor.inside
  | failed h => exact h.cursor.inside
  | stopped h => trivial
  | lost h => trivial

/-- One run of a skipper without side effects. -/
theorem skipper_meets {env : Env} {s : Grammar} (hs : SideEffectFree env s) (n : Nat) {st : State}
    (hin : st.cursor.In env.source) :
    (parse env n s Ctx.root st).Meets
      ⟨fun _ st' => st' = { st with cursor := st'.cursor, journal := st'.journal },
        fun st' => st' = { st with cursor := st'.cursor, journal := st'.journal },
        fun _ => True⟩ := by
  have hends : ∀ o, parse env n s Ctx.root st = o → ¬ o.Spent → Answers env s Ctx.root st o :=
    fun o ho hspent => ⟨hspent, n, ho⟩
  cases ho : parse env n s Ctx.root st with
  | matched v st' => exact hs st st' hin (.inl ⟨v, hends _ ho (Outcome.not_spent_matched v st')⟩)
  | failed st' => exact hs st st' hin (.inr (hends _ ho (Outcome.not_spent_failed st')))
  | stopped hlt => trivial

/-- Skipping without side effects leads to another place of the text. -/
theorem skipOver_of_sideEffectFree {env : Env} {s : Grammar} (hs : SideEffectFree env s) {c : Ctx}
    (hskipper : c.skipper = some s) (n : Nat) {st st' : State} (hin : st.cursor.In env.source)
    (h : Node.skipOver env (parse env n) c st = .ok st') :
    st' = { st with cursor := st'.cursor, journal := st'.journal } ∧
      st'.cursor.In env.source := by
  let I : State → Prop := fun st1 =>
    st1 = { st with cursor := st1.cursor, journal := st1.journal } ∧ st1.cursor.In env.source
  -- every round of the loop changes the cursor and the journal only
  have round (st1 : State) (h1 : I st1) :
      (parse env n s Ctx.root st1).Meets ⟨fun _ => I, I, fun _ => True⟩ := by
    have hfree := skipper_meets hs n h1.2
    refine (hfree.and (parse_inside env n s Ctx.root st1 h1.2)).mono ?_ ?_ fun _ _ => trivial
    · rintro v st2 ⟨h2, hin2⟩
      refine ⟨?_, hin2⟩
      rw [h2, h1.1]
    · rintro st2 ⟨h2, hin2⟩
      refine ⟨?_, hin2⟩
      rw [h2, h1.1]
  have hloop : Settles (Node.skipLoop (parse env n s Ctx.root) (Node.rounds env st) st) I
      fun _ => True := by
    apply Node.skipLoop_settles (fun _ => I)
    · exact fun _ _ => trivial
    · intro k st1 h1
      exact (round st1 h1).mono (fun _ _ h2 => ⟨fun _ => h2, fun _ => h2⟩) (fun _ h2 => h2)
        fun _ _ => trivial
    · exact ⟨rfl, hin⟩
  unfold Node.skipOver at h
  rw [hskipper] at h
  cases hskipping : c.skipping with
  | false =>
    rw [hskipping] at h
    cases h
    exact ⟨rfl, hin⟩
  | true =>
    rw [hskipping] at h
    simp only at h
    rw [h] at hloop
    exact hloop

/-- A lexeme matches where its subject matches without skipping, after skipping once. -/
theorem parse_lexeme_eq_matched {env : Env} {n : Nat} {g : Grammar} {c : Ctx} {st st' : State}
    {v : Value} : parse env (n + 1) (.lexeme g) c st = .matched v st' ↔
      ∃ st1, Node.skipOver env (parse env n) c st = .ok st1 ∧
        parse env n g { c with skipping := false } st1 = .matched v st' := by
  rw [parse_succ, Node.step, Node.lexeme]
  cases Node.skipOver env (parse env n) c st with
  | error hlt =>
    constructor
    · intro h
      cases h
    · rintro ⟨st1, h, -⟩
      cases h
  | ok st1 =>
    simp only [Node.afterSkip, Except.ok.injEq, exists_eq_left']
    cases parse env n g { c with skipping := false } st1 with
    | matched w st2 => rfl
    | failed st2 =>
      constructor <;> intro h <;> cases h
    | stopped hlt => rfl

/-- A context without a skipper. -/
theorem Ctx.notSkipping_none (env : Env) (ctx : Ctx) :
    ({ ctx with skipper := none } : Ctx).NotSkipping env := fun _ _ hs => nomatch hs

/-- A context where skipping is off. -/
theorem Ctx.notSkipping_off (env : Env) (ctx : Ctx) (skipper : Option Grammar) :
    ({ ctx with skipper, skipping := false } : Ctx).NotSkipping env := fun _ hs _ => nomatch hs

section Lexeme

variable {env : Env} (henv : ∀ name d, env.rules name = some d → d.body.SkipFree) {g : Grammar}
  (hg : g.SkipFree) {ctx : Ctx}
  (hctx : ∀ name d, ctx.chain.injected? name = some d → d.body.SkipFree) {s : Grammar}
  (hs : SideEffectFree env s) {st : State} (hin : st.cursor.In env.source)

include henv hg hctx hs hin

/-- A lexeme that matches does so like its subject from the place that skipping leads to. -/
theorem subject_of_lexeme {v : Value} {st' : State}
    (h : Answers env (.lexeme g) { ctx with skipper := some s, skipping := true } st
      (.matched v st')) :
    ∃ q u, SkipsTo env { ctx with skipper := some s, skipping := true } st q ∧
      Answers env g { ctx with skipper := none } { st with cursor := q } (.matched v u) ∧
      u.SameButJournal st' := by
  obtain ⟨hspent, n, hn⟩ := h
  cases n with
  | zero => cases hn
  | succ n =>
    obtain ⟨st1, hskip, hmatch⟩ := parse_lexeme_eq_matched.mp hn
    obtain ⟨hst1, hin1⟩ := skipOver_of_sideEffectFree hs rfl n hin hskip
    -- the place and the journal are all that skipping has changed
    have hback : (Parallel.twin env Halt.Spent).Beside st1 { st1 with journal := st.journal } :=
      Parallel.twin_beside hin1 st.journal
    have hplace : { st1 with journal := st.journal } = { st with cursor := st1.cursor } := by
      rw [hst1]
    rw [hplace] at hback
    have halike : Ctx.SkipAlike env { ctx with skipper := some s, skipping := false }
        { ctx with skipper := none } :=
      ⟨⟨rfl, rfl, rfl, rfl⟩, hctx, .inr ⟨ctx.notSkipping_off env _, ctx.notSkipping_none env⟩⟩
    obtain ⟨o, ho, hsame⟩ := answers_quiet henv hg halike hback ⟨hspent, n, hmatch⟩
    obtain ⟨u, rfl, hu⟩ := hsame.of_matched
    exact ⟨st1.cursor, u, ⟨n, st1, hskip, rfl⟩, ho, hu.symm⟩

/-- Where the subject matches from the place that skipping leads to, the lexeme matches too. -/
theorem lexeme_of_subject {q : Cursor} {v : Value} {u : State}
    (hq : SkipsTo env { ctx with skipper := some s, skipping := true } st q)
    (hu : Answers env g { ctx with skipper := none } { st with cursor := q } (.matched v u)) :
    ∃ st', Answers env (.lexeme g) { ctx with skipper := some s, skipping := true } st
      (.matched v st') ∧ u.SameButJournal st' := by
  obtain ⟨n, st1, hskip, rfl⟩ := hq
  obtain ⟨hst1, hin1⟩ := skipOver_of_sideEffectFree hs rfl n hin hskip
  have hthere : (Parallel.twin env Halt.Spent).Beside { st with cursor := st1.cursor }
      { st with cursor := st1.cursor, journal := st1.journal } := by
    apply Parallel.twin_beside
    exact hin1
  rw [← hst1] at hthere
  have halike : Ctx.SkipAlike env { ctx with skipper := none }
      { ctx with skipper := some s, skipping := false } :=
    ⟨⟨rfl, rfl, rfl, rfl⟩, hctx, .inr ⟨ctx.notSkipping_none env, ctx.notSkipping_off env _⟩⟩
  obtain ⟨o, ⟨hspent, m, hm⟩, hsame⟩ := answers_quiet henv hg halike hthere hu
  obtain ⟨st', rfl, hst'⟩ := hsame.of_matched
  -- enough fuel for skipping and for the subject
  have hskips : ExceptBelow Halt.Spent
      (Node.skipOver env (parse env n) { ctx with skipper := some s, skipping := true } st)
      (Node.skipOver env (parse env (max n m)) { ctx with skipper := some s, skipping := true }
        st) :=
    Node.skipOver_below (fun g ctx st => parse_below env (Nat.le_max_left n m) g ctx st) _ st
  rw [hskip] at hskips
  have hskip' := hskips.eq_of_not fun _ he => nomatch he
  have hmatches := parse_below env (Nat.le_max_right n m) g
    { ctx with skipper := some s, skipping := false } st1
  rw [hm] at hmatches
  refine ⟨st', ⟨hspent, max n m + 1, ?_⟩, hst'⟩
  exact parse_lexeme_eq_matched.mpr ⟨st1, hskip'.symm, (hmatches.eq hspent).symm⟩

end Lexeme

/-- All ways of not skipping agree. A parser without a node that switches skipping on has the same
    answers without a skipper, with an idle skipper, and with any skipper when skipping is off. A
    lexeme with a skipper without side effects matches like its subject without a skipper from the
    place that skipping leads to, and only so. -/
theorem not_skipping_agrees (env : Env) (g : Grammar) (ctx : Ctx) (st : State)
    (hin : st.cursor.In env.source) (hg : g.SkipFree)
    (henv : ∀ name d, env.rules name = some d → d.body.SkipFree)
    (hctx : ∀ name d, ctx.chain.injected? name = some d → d.body.SkipFree) :
    (∀ s, Idle env s → Corresponds Outcome.SameButJournal
      (Answers env g { ctx with skipper := none } st)
      (Answers env g { ctx with skipper := some s } st)) ∧
    (∀ skipper, Corresponds Outcome.SameButJournal
      (Answers env g { ctx with skipper := none } st)
      (Answers env g { ctx with skipper, skipping := false } st)) ∧
    ∀ s, SideEffectFree env s →
      (∀ v st', Answers env (.lexeme g) { ctx with skipper := some s, skipping := true } st
          (.matched v st') →
        ∃ q u, SkipsTo env { ctx with skipper := some s, skipping := true } st q ∧
          Answers env g { ctx with skipper := none } { st with cursor := q } (.matched v u) ∧
          u.SameButJournal st') ∧
      ∀ q v u, SkipsTo env { ctx with skipper := some s, skipping := true } st q →
        Answers env g { ctx with skipper := none } { st with cursor := q } (.matched v u) →
        ∃ st', Answers env (.lexeme g) { ctx with skipper := some s, skipping := true } st
          (.matched v st') ∧ u.SameButJournal st' := by
  refine ⟨?_, ?_, ?_⟩
  · intro s hs
    have hidle : ({ ctx with skipper := some s } : Ctx).NotSkipping env := by
      intro s' _ hs'
      obtain rfl : s = s' := Option.some.inj hs'
      exact hs
    apply corresponds_of_notSkipping henv hg
    · exact hctx
    · exact ⟨rfl, rfl, rfl, rfl⟩
    · exact ctx.notSkipping_none env
    · exact hidle
    · exact hin
  · intro skipper
    apply corresponds_of_notSkipping henv hg
    · exact hctx
    · exact ⟨rfl, rfl, rfl, rfl⟩
    · exact ctx.notSkipping_none env
    · exact ctx.notSkipping_off env skipper
    · exact hin
  · intro s hs
    constructor
    · intro v st' h
      exact subject_of_lexeme henv hg hctx hs hin h
    · intro q v u hq hu
      exact lexeme_of_subject henv hg hctx hs hin hq hu

/-! ## Skippers without side effects -/

/-- A run has one end. -/
theorem SkipperEnds.unique {env : Env} {s : Grammar} {st st1 st2 : State}
    (h1 : SkipperEnds env s st st1) (h2 : SkipperEnds env s st st2) : st2 = st1 := by
  obtain ⟨v, hv⟩ | hf := h1
  · obtain ⟨w, hw⟩ | hf' := h2
    · cases hv.unique hw
      rfl
    · cases hv.unique hf'
  · obtain ⟨w, hw⟩ | hf' := h2
    · cases hf.unique hw
    · cases hf.unique hf'
      rfl

/-- A terminal comes to an end everywhere, and only the cursor has changed. -/
theorem terminal_ends (env : Env) (t : Terminal) {st : State} (hin : st.cursor.In env.source) :
    ∃ cursor, SkipperEnds env (.terminal t) st { st with cursor } := by
  have hparse : parse env 1 (.terminal t) Ctx.root st = Node.takeTerminal t false st.cursor st :=
    parse_succ ..
  have hanswers {o : Outcome} (h : Node.takeTerminal t false st.cursor st = o) (ho : ¬ o.Spent) :
      Answers env (.terminal t) Ctx.root st o := ⟨ho, 1, hparse.trans h⟩
  cases hscan : t.scan false st.cursor.rest with
  | none =>
    refine ⟨st.cursor, .inr (hanswers ?_ (Outcome.not_spent_failed _))⟩
    rw [Node.takeTerminal, hscan]
    rfl
  | some r =>
    obtain ⟨n, v⟩ := r
    obtain ⟨c, hc, -, -⟩ := hin.advance? (Terminal.scan_isBoundary hscan)
    refine ⟨c, .inl ⟨v, hanswers ?_ (Outcome.not_spent_matched v _)⟩⟩
    simp only [Node.takeTerminal, hscan, hc]
    rfl

theorem sideEffectFree_terminal (env : Env) (t : Terminal) : SideEffectFree env (.terminal t) := by
  intro st st' hin hends
  obtain ⟨cursor, hcursor⟩ := terminal_ends env t hin
  rw [hcursor.unique hends]

/-- Looking ahead at a terminal is idle. -/
theorem idle_ahead_terminal (env : Env) (t : Terminal) : Idle env (.ahead (.terminal t)) := by
  intro st hin
  obtain ⟨cursor, ⟨v, hspent, n, hn⟩ | ⟨hspent, n, hn⟩⟩ := terminal_ends env t hin
  · refine ⟨st.journal, .inl ⟨.unused, Outcome.not_spent_matched _ _, n + 1, ?_⟩⟩
    rw [parse_succ, Node.step, Node.ahead, hn]
    rfl
  · refine ⟨st.journal, .inr ⟨Outcome.not_spent_failed _, n + 1, ?_⟩⟩
    rw [parse_succ, Node.step, Node.ahead, hn]
    rfl

def letterRule : Rule := { name := "letter", ty := .char }

open Notation in
/-- Letters with commas between them. -/
def letterList : Grammar := .list (call letterRule) (lit ',')

open Notation in
/-- A blank before the letters of the text. -/
def lettersEnv : Env :=
  .of " a,b".toList fun name => if name = "letter" then some ⟨alpha, false⟩ else none

theorem letters_skipFree (name : String) (d : Definition) (h : lettersEnv.rules name = some d) :
    d.body.SkipFree :=
  Grammar.All.of_single _ (by decide) name d h

open Notation in
/-- The letters match after the blank without a skipper. They do so with an idle skipper as well,
    and with a skipper that is switched off; as a lexeme they match from before the blank, to the
    same end. -/
theorem not_skipping_agrees_letters :
    Idle lettersEnv (.ahead space) ∧ SideEffectFree lettersEnv space ∧ letterList.SkipFree ∧
    ∃ v u, Answers lettersEnv letterList {} { cursor := ⟨1, "a,b".toList⟩ } (.matched v u) ∧
      u.offset = 4 ∧
      (∃ u', Answers lettersEnv letterList { skipper := some (.ahead space) }
        { cursor := ⟨1, "a,b".toList⟩ } (.matched v u') ∧ u.SameButJournal u') ∧
      (∃ u', Answers lettersEnv letterList { skipper := some space, skipping := false }
        { cursor := ⟨1, "a,b".toList⟩ } (.matched v u') ∧ u.SameButJournal u') ∧
      SkipsTo lettersEnv { skipper := some space } { cursor := .start " a,b".toList }
        ⟨1, "a,b".toList⟩ ∧
      ∃ u', Answers lettersEnv (.lexeme letterList) { skipper := some space }
        { cursor := .start " a,b".toList } (.matched v u') ∧ u.SameButJournal u' := by
  have hspace : SideEffectFree lettersEnv space := sideEffectFree_terminal _ _
  have hidle : Idle lettersEnv (.ahead space) := idle_ahead_terminal _ _
  have hfree : letterList.SkipFree := by decide
  have hplain : ∃ v u, Answers lettersEnv letterList {} { cursor := ⟨1, "a,b".toList⟩ }
      (.matched v u) ∧ u.offset = 4 :=
    ⟨_, _, ⟨Outcome.not_spent_matched _ _, 8, rfl⟩, rfl⟩
  have hskip : SkipsTo lettersEnv { skipper := some space } { cursor := .start " a,b".toList }
      ⟨1, "a,b".toList⟩ := ⟨1, _, rfl, rfl⟩
  obtain ⟨v, u, hu, hend⟩ := hplain
  have hhere := not_skipping_agrees lettersEnv letterList {} { cursor := ⟨1, "a,b".toList⟩ }
    (by decide) hfree letters_skipFree nofun
  have hbefore := not_skipping_agrees lettersEnv letterList {} { cursor := .start " a,b".toList }
    (by decide) hfree letters_skipFree nofun
  refine ⟨hidle, hspace, hfree, v, u, hu, hend, ?_, ?_, hskip, ?_⟩
  · obtain ⟨o, ho, hsame⟩ := (hhere.1 _ hidle).1 _ hu
    obtain ⟨u', rfl, hu'⟩ := hsame.of_matched
    exact ⟨u', ho, hu'⟩
  · obtain ⟨o, ho, hsame⟩ := (hhere.2.1 (some space)).1 _ hu
    obtain ⟨u', rfl, hu'⟩ := hsame.of_matched
    exact ⟨u', ho, hu'⟩
  · exact (hbefore.2.2 space hspace).2 _ v u hskip hu

end Peg
