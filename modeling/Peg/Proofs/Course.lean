/-
  Peg.Proofs.Course

  The course of a parse: everything that parsing with a grammar in a context can
  do to the state, as a relation with one rule for each way to change something.
  Hooks change what is in sight in the context of their node. Other parsers run in
  contexts that show no other cells and no other rule variable, apart from the
  cells and the variables that were made for them. That whole parses take such a
  course is shown once, by cases over the nodes; what a parse leaves alone and what
  it records then follows by induction on the course.
-/
import Peg.Proofs.Bindings
import Peg.Proofs.Journal
import Peg.Proofs.Postcondition
import Peg.Proofs.Runs

namespace Peg

/-! ## What is in sight and what is run -/

/-- A key in sight is bound to the cell. -/
def Ctx.Shows (ctx : Ctx) (r : CellRef) : Prop := ∃ key, ctx.chain.find? key = some (.cell r)

/-- The cell that the node keeps from one time to the next, and binds a key to. -/
def Grammar.kept? : Grammar → Option CellRef
  | .bind _ (.shared id _) _ => some (.shared id)
  | _ => none

/-- The node opens the cell. -/
def Grammar.Opens (g : Grammar) (r : CellRef) : Prop := g.kept? = some r

instance (g : Grammar) (r : CellRef) : Decidable (g.Opens r) :=
  inferInstanceAs (Decidable (g.kept? = some r))

theorem Ctx.shows_of_inSight {ctx : Ctx} {key : Key} {r : CellRef}
    (h : (key, .cell r) ∈ ctx.chain.inSight) : ctx.Shows r := ⟨key, Chain.mem_inSight.mp h⟩

theorem Ctx.root_shows (r : CellRef) : ¬ Ctx.root.Shows r := fun ⟨_, h⟩ => nomatch h

/-- What a context shows after another binding. -/
theorem Ctx.Shows.of_bind {ctx : Ctx} {key : Key} {b : Bound} {r : CellRef}
    (h : (ctx.bind key b).Shows r) :
    b = .cell r ∨ ∃ k, k ≠ key ∧ ctx.chain.find? k = some (.cell r) := by
  obtain ⟨k, hk⟩ := h
  rw [Ctx.bind, Chain.find?] at hk
  split at hk
  · exact .inl (Option.some.inj hk)
  · rename_i hne
    exact .inr ⟨k, fun he => hne he.symm, hk⟩

/-- What a context shows once a key is hidden. -/
theorem Ctx.Shows.of_hide {ctx : Ctx} {key : Key} {r : CellRef}
    (h : Ctx.Shows { ctx with chain := .hide key :: ctx.chain } r) :
    ∃ k, k ≠ key ∧ ctx.chain.find? k = some (.cell r) := by
  obtain ⟨k, hk⟩ := h
  rw [Chain.find?] at hk
  split at hk
  · cases hk
  · rename_i hne
    exact ⟨k, fun he => hne he.symm, hk⟩

/-- A parser in a context comes to run a parser in another context, at any depth. -/
inductive ComesTo (env : Env) : Grammar → Ctx → Grammar → Ctx → Prop where
  | here (g : Grammar) (ctx : Ctx) : ComesTo env g ctx g ctx
  | next {g p q : Grammar} {ctx ctx' ctx'' : Ctx} {moved : Bool}
      (h : Runs env g ctx moved p ctx') (hq : ComesTo env p ctx' q ctx'') :
      ComesTo env g ctx q ctx''

section ComesTo

variable {env : Env} {D : Discipline} {g q : Grammar} {ctx ctx' : Ctx} {moved : Bool}

/-- A parser runs skippers without tracking, and everything else as it runs itself. -/
theorem Runs.tracking (h : Runs env g ctx moved q ctx') :
    ctx'.tracking = ctx.tracking ∨ ctx' = Ctx.root := by
  cases h with
  | skipper hs => exact .inr rfl
  | part hq hlike => exact .inl hlike.tracking
  | seq before q after => exact .inl rfl
  | skipWith s => exact .inl rfl
  | rule hd hlike => exact .inl hlike.tracking
  | define hlike => exact .inl hlike.tracking

/-- Where failures are not tracked, they are not tracked further down. -/
theorem ComesTo.untracked (h : ComesTo env g ctx q ctx') (ht : ctx.tracking = false) :
    ctx'.tracking = false := by
  induction h with
  | here => exact ht
  | next h _ ih =>
    obtain he | rfl := h.tracking
    · exact ih (he.trans ht)
    · exact ih rfl

/-- What a parser under a discipline comes to run is under it, if skippers are. -/
theorem ComesTo.under (h : ComesTo env g ctx q ctx') (henv : env.Under D)
    (hskipper : ∀ s, D.skipper s → D.node s) (hg : D.node g) (hctx : ctx.Under D) :
    D.node q := by
  induction h with
  | here => exact hg
  | next hrun _ ih =>
    obtain ⟨hunder, ⟨hp, -⟩ | ⟨hs, -⟩⟩ := hrun.under henv hg hctx
    · exact ih hp hunder
    · exact ih (hskipper _ hs) hunder

/-- What it comes to run with tracking is under the discipline, whatever skippers are. -/
theorem ComesTo.under_of_tracked (h : ComesTo env g ctx q ctx') (henv : env.Under D)
    (hg : D.node g) (hctx : ctx.Under D) (ht : ctx'.tracking = true) : D.node q := by
  induction h with
  | here => exact hg
  | next hrun hrest ih =>
    obtain ⟨hunder, ⟨hp, -⟩ | ⟨-, rfl⟩⟩ := hrun.under henv hg hctx
    · exact ih hp hunder ht
    · rw [hrest.untracked rfl] at ht
      cases ht

end ComesTo

/-! ## Courses -/

/-- What parsing with a grammar in a context can do to the state. -/
inductive Course (env : Env) : Grammar → Ctx → State → State → Prop where
  | refl {g : Grammar} {ctx : Ctx} (st : State) : Course env g ctx st st
  | trans {g : Grammar} {ctx : Ctx} {st st1 st2 : State} (h : Course env g ctx st st1)
      (h' : Course env g ctx st1 st2) : Course env g ctx st st2
  /-- the cursor is put somewhere -/
  | move {g : Grammar} {ctx : Ctx} (st : State) (c : Cursor) : Course env g ctx st (st.moveTo c)
  /-- a script is asked -/
  | ask {g : Grammar} {ctx : Ctx} (st : State) (calls : List (Nat × Nat)) :
      Course env g ctx st { st with calls }
  /-- something happens that is not a miss -/
  | mark {g : Grammar} {ctx : Ctx} (st : State) {i : Incident} (hi : i.isMiss = false) :
      Course env g ctx st (st.mark i)
  /-- an action or a hook runs, with the rule variable in sight or without one -/
  | perform {g : Grammar} {ctx : Ctx} (st : State) (f : Action) (span : Span) {varTy : Option Ty}
      (v : Value) (hvar : varTy = none ∨ varTy = ctx.varTy) :
      Course env g ctx st (Node.perform env ctx f span varTy v st).2
  /-- a parser runs in a context that shows no more, but for a cell that the node opens -/
  | run {g q : Grammar} {ctx ctx' : Ctx} {moved : Bool} {st st1 : State}
      (h : Runs env g ctx moved q ctx') (hvar : ctx'.varTy = none ∨ ctx'.varTy = ctx.varTy)
      (hshows : ∀ r, ctx'.Shows r → ctx.Shows r ∨ g.Opens r)
      (hq : Course env q ctx' st st1) : Course env g ctx st st1
  /-- the body of a rule runs with a variable of its own -/
  | call {g q : Grammar} {ctx ctx' : Ctx} {moved : Bool} {st st1 : State}
      (h : Runs env g ctx moved q ctx') (hshows : ∀ r, ctx'.Shows r → ctx.Shows r) (v : Value)
      (hq : Course env q ctx' { st with ruleVar := v } st1) :
      Course env g ctx st { st1 with ruleVar := st.ruleVar }
  /-- a cell that is kept is opened -/
  | openCell {key : Key} {id : Nat} {v : Value} {p : Grammar} {ctx : Ctx} (st : State) :
      Course env (.bind key (.shared id v) p) ctx st (st.openCell id v)
  /-- the subject runs with a cell of its own -/
  | fresh {key : Key} {v : Value} {p : Grammar} {ctx : Ctx} {st st1 : State}
      (hp : Course env p (ctx.bind key (.cell (.fresh st.locals.length)))
        { st with locals := v :: st.locals } st1) :
      Course env (.bind key (.fresh v) p) ctx st { st1 with locals := st1.locals.drop 1 }
  /-- a commit point misses: its subject failed, and the skipper led to the place of the record -/
  | miss {p : Grammar} {ctx : Ctx} {m : Nat} {st0 st1 st2 : State} (ht : ctx.tracking = true)
      (hp : parse env m p ctx st0 = .failed st1)
      (hskip : Node.skipOver env (parse env m) ctx st1 = .ok st2) :
      Course env (.expect p) ctx st2 (st2.record ⟨st2.offset, p.what⟩)

/-- A parse that has not come to its end: it is on its course, or a parser that it runs has not
    come to its end. -/
inductive Underway (env : Env) : Grammar → Ctx → State → State → Prop where
  | here {g : Grammar} {ctx : Ctx} {st st1 : State} (h : Course env g ctx st st1) :
      Underway env g ctx st st1
  | inside {g q : Grammar} {ctx ctx' : Ctx} {moved : Bool} {st st1 st2 st3 : State}
      (h : Course env g ctx st st1) (hq : Runs env g ctx moved q ctx')
      (hfailure : st2.failure = st1.failure) (hjournal : st2.journal = st1.journal)
      (h' : Underway env q ctx' st2 st3) : Underway env g ctx st st3

/-- What skipping in a context can do to the state: nothing, or what the skipper can do. -/
def Skipped (env : Env) (ctx : Ctx) (st st' : State) : Prop :=
  st' = st ∨ ∃ s, ctx.skipper = some s ∧ Course env s Ctx.root st st'

/-- A parse takes its course, and is underway when it halts. -/
def TakesCourse (env : Env) (g : Grammar) (ctx : Ctx) (st : State) : Post :=
  ⟨fun _ st' => Course env g ctx st st', Course env g ctx st,
    fun h => Underway env g ctx st h.state⟩

section Courses

variable {env : Env} {g q : Grammar} {ctx ctx' : Ctx} {moved : Bool} {st st1 st2 : State}

theorem Underway.after (h : Course env g ctx st st1) (h' : Underway env g ctx st1 st2) :
    Underway env g ctx st st2 := by
  cases h' with
  | here h2 => exact .here (h.trans h2)
  | inside h2 hq hfailure hjournal h3 => exact .inside (h.trans h2) hq hfailure hjournal h3

/-- A parse without a rule variable in sight leaves the variables of all rules alone. -/
theorem Course.ruleVar (h : Course env g ctx st st1) (hvar : ctx.varTy = none) :
    st1.ruleVar = st.ruleVar := by
  induction h with
  | refl | move | ask | mark | call | miss => rfl
  | trans _ _ ih ih' => exact (ih' hvar).trans (ih hvar)
  | @perform g ctx st f span varTy v hv =>
    have hnone : varTy = none := hv.elim id fun he => he.trans hvar
    subst hnone
    simp only [Node.perform]
    rw [State.store_eq]
    rfl
  | run _ hv _ _ ih => exact ih (hv.elim id fun he => he.trans hvar)
  | openCell st => rw [State.openCell_eq]
  | fresh _ ih => exact ih hvar

theorem Skipped.course (h : Skipped env ctx st st1) (hctx : ctx.skipper = ctx'.skipper) :
    Course env g ctx' st st1 := by
  obtain rfl | ⟨s, hs, h⟩ := h
  · exact .refl _
  · exact .run (.skipper (hctx ▸ hs)) (.inl rfl) (fun r hr => absurd hr (Ctx.root_shows r)) h

theorem Skipped.ruleVar (h : Skipped env ctx st st1) : st1.ruleVar = st.ruleVar := by
  obtain rfl | ⟨s, hs, h⟩ := h
  · rfl
  · exact h.ruleVar rfl

end Courses

namespace Node

/-! ## Hooks -/

section Hooks

variable {env : Env} {g : Grammar} {ctx ctx' : Ctx}

/-- A hook depends on a context only by what is in sight there. -/
theorem perform_eq_of_inSight (h : ctx'.chain.inSight = ctx.chain.inSight) :
    perform env ctx' = perform env ctx := by
  have hannotating : ctx'.annotating = ctx.annotating := by rw [Ctx.annotating, h, Ctx.annotating]
  have hvalues (st : State) : st.values ctx' = st.values ctx := by
    rw [State.values, h, State.values]
  have hstore (st : State) (bound : List (Key × Value)) :
      st.store ctx' bound = st.store ctx bound := by rw [State.store, h, State.store]
  funext f span varTy v st
  simp only [perform, hannotating, hvalues, hstore]

theorem succeed_course (h : ctx'.chain.inSight = ctx.chain.inSight) (r : Rule) (span : Span)
    (v : Value) (st : State) : Course env g ctx st (succeed env ctx' r span v st).2 := by
  cases hr : r.onSuccess with
  | none =>
    simp only [succeed, hr]
    exact .refl st
  | some f =>
    simp only [succeed, hr, perform_eq_of_inSight h]
    exact .trans (.mark st rfl) (.perform _ f span v (.inl rfl))

theorem missRule_course (h : ctx'.chain.inSight = ctx.chain.inSight) (r : Rule) (start : Nat)
    (st : State) (hvar : ctx.varTy = some r.ty) :
    Course env g ctx st (missRule env ctx' r start st) := by
  unfold missRule
  split
  · rename_i f _ _
    rw [perform_eq_of_inSight h]
    exact .trans (.mark st rfl) (.perform _ (r.onError f) _ _ (.inr hvar.symm))
  · exact .refl st

end Hooks

section Step

variable {env : Env} {n : Nat} {g q : Grammar} {ctx ctx' : Ctx} {moved : Bool} {st st1 : State}

/-! ## Skipping, parts and loops -/

variable (h : ∀ g ctx st, (parse env n g ctx st).Meets (TakesCourse env g ctx st))

include h

theorem skipOver_skipped (ctx : Ctx) (st : State) :
    Settles (skipOver env (parse env n) ctx st) (Skipped env ctx st) fun hlt =>
      ∃ s, ctx.skipper = some s ∧ Underway env s Ctx.root st hlt.state := by
  refine skipOver_settles (.inl rfl) fun s _ hs => ?_
  -- the rounds so far make one course of the skipper
  refine skipLoop_settles (fun _ st1 => Course env s Ctx.root st st1)
    (fun st1 h1 => ⟨s, hs, .here h1⟩) (fun k st1 h1 => ?_) _ _ (.refl st)
  exact (h s Ctx.root st1).mono
    (fun _ st2 h2 => ⟨fun _ => .inr ⟨s, hs, h1.trans h2⟩, fun _ => h1.trans h2⟩)
    (fun st2 h2 => .inr ⟨s, hs, h1.trans h2⟩) (fun hlt hh => ⟨s, hs, hh.after h1⟩)

/-- Skipping is on the course of every parser with the skipper in force. -/
theorem skipOver_course (hctx : ctx'.skipper = ctx.skipper) (h1 : Course env g ctx st st1) :
    Settles (skipOver env (parse env n) ctx' st1) (Course env g ctx st)
      (TakesCourse env g ctx st).halt :=
  (skipOver_skipped h ctx' st1).mono (fun _ h2 => h1.trans (h2.course hctx))
    fun _ ⟨_, hs, hh⟩ => .inside h1 (.skipper (hctx ▸ hs)) rfl rfl hh

/-- A parser that another one runs, after whatever that one did before. -/
theorem run_course (hq : Runs env g ctx moved q ctx')
    (hvar : ctx'.varTy = none ∨ ctx'.varTy = ctx.varTy)
    (hshows : ∀ r, ctx'.Shows r → ctx.Shows r ∨ g.Opens r) (h1 : Course env g ctx st st1) :
    (parse env n q ctx' st1).Meets (TakesCourse env g ctx st) :=
  (h q ctx' st1).mono (fun _ _ h2 => h1.trans (.run hq hvar hshows h2))
    (fun _ h2 => h1.trans (.run hq hvar hshows h2)) (fun _ hh => .inside h1 hq rfl rfl hh)

/-- A part in a context with the same in sight. -/
theorem part_course (hq : q ∈ g.parts) (hctx : ctx'.Like ctx) (hvar : ctx'.varTy = ctx.varTy)
    (hchain : ctx'.chain = ctx.chain) (h1 : Course env g ctx st st1) :
    (parse env n q ctx' st1).Meets (TakesCourse env g ctx st) :=
  run_course h (.part hq hctx) (.inr hvar) (fun r hr => .inl (by rwa [Ctx.Shows, hchain] at hr)) h1

omit h in
theorem endRepeat_course {ty : Ty} {min : Nat} {start : Cursor}
    {o : Except Halt (List Value × State)}
    (ho : Settles o (fun r => Course env g ctx st r.2) (TakesCourse env g ctx st).halt) :
    (endRepeat ctx' ty min start o).Meets (TakesCourse env g ctx st) := by
  rw [meets_endRepeat]
  refine ho.mono (fun r hr => ?_) (fun _ hh => hh)
  split
  · exact hr.trans (.move _ _)
  · exact hr

omit h in
theorem times_course {p : Step}
    (hp : ∀ st1, Course env g ctx st st1 → (p st1).Meets (TakesCourse env g ctx st)) (ty : Ty)
    (min : Nat) (max : Option Nat) :
    (times env ctx ty min max p st).Meets (TakesCourse env g ctx st) := by
  cases max with
  | none =>
    refine endRepeat_course (repeatLoop_settles (fun _ _ st1 => Course env g ctx st st1)
      (fun _ _ h1 => .here h1) (fun _ _ st1 h1 => ?_) _ [] st (.refl st))
    exact (hp st1 h1).mono (fun _ _ h2 => ⟨fun _ => h2, fun _ => h2⟩) (fun _ h2 => h2)
      (fun _ hh => hh)
  | some k =>
    refine endRepeat_course (repeatUpTo_settles (fun _ _ st1 => Course env g ctx st st1)
      (fun _ _ h1 => h1) (fun _ _ st1 h1 => ?_) k [] st (.refl st))
    exact (hp st1 h1).mono (fun _ _ h2 => h2) (fun _ h2 => h2) (fun _ hh => hh)

/-! ## Calls -/

/-- A call gives the rule variable back, whatever its body and its hooks do. -/
theorem call_course {r : Rule} {d : Definition} (hskipper : ctx'.skipper = ctx.skipper)
    (hsight : ctx'.chain.inSight = ctx.chain.inSight)
    (hbody : Runs env g ctx false d.body { ctx' with varTy := some r.ty }) :
    (call env (parse env n) r d ctx' st).Meets (TakesCourse env g ctx st) := by
  have hshows (r' : CellRef) (hr : Ctx.Shows { ctx' with varTy := some r.ty } r') :
      ctx.Shows r' := by
    obtain ⟨key, hkey⟩ := hr
    exact Ctx.shows_of_inSight (hsight ▸ Chain.mem_inSight.mpr hkey)
  rw [meets_call]
  refine (skipOver_skipped h ctx' st).mono (fun st1 h1 => ?_)
    (fun _ ⟨_, hs, hh⟩ => .inside (.refl st) (.skipper (hskipper ▸ hs)) rfl rfl hh)
  have hvar : st.ruleVar = (st1.mark (.entered r.name)).ruleVar := h1.ruleVar.symm
  have hentered : Course env g ctx st (st1.mark (.entered r.name)) :=
    (h1.course hskipper).trans (.mark st1 rfl)
  refine (h d.body _ _).mono (fun v st2 h2 => ?_) (fun st2 h2 => ?_)
    (fun hlt hh => .inside hentered hbody (by rfl) (by rfl) hh)
  · -- the hook for matches runs once the variable is given back
    have hback : Course env g ctx st { st2 with ruleVar := st.ruleVar } := by
      rw [hvar]
      exact hentered.trans (.call hbody hshows _ h2)
    have hdone := (hback.trans (succeed_course hsight r ⟨st1.offset, st2.offset⟩
      (fillRule r d st2.ruleVar v) _)).trans (.mark _ (i := .left r.name) rfl)
    exact matchRule_meets rfl (fun _ => hdone) (hdone.trans (.move _ _))
  · -- the hook for failures runs with the variable of the call
    have hmissed := Course.trans h2 (missRule_course rfl r st1.offset st2 rfl)
    have hback := hentered.trans (.call hbody hshows _ hmissed)
    rw [← hvar] at hback
    exact (hback.trans (.mark _ (i := .left r.name) rfl)).trans (.move _ st.cursor)

/-! ## Nodes -/

/-- One node takes its course if the parsers that it runs do. -/
theorem step_course (g : Grammar) (ctx : Ctx) (st : State) :
    (step env (parse env n) g ctx st).Meets (TakesCourse env g ctx st) := by
  have here : Course env g ctx st st := .refl st
  cases g with
  | terminal t =>
    rw [step, meets_afterSkip]
    refine (skipOver_course h rfl here).mono (fun st1 h1 => ?_) (fun _ hh => hh)
    exact takeTerminal_meets (h1.trans (.move _ _)) (fun _ _ _ _ _ => h1.trans (.move _ _))
      (fun _ _ _ _ => .here h1)
  | eps c =>
    have hasked : Course env (.eps c) ctx st (condition c st).2 := by
      rw [condition_eq]
      exact .ask st _
    rw [meets_eps]
    split
    · exact skipOver_course h rfl hasked
    · exact hasked
  | attr ty v => exact here
  | seq ps =>
    refine seqLoop_meets
      (fun qs _ st1 => ∃ before, ps = before ++ qs ∧ Course env (.seq ps) ctx st st1)
      (fun _ st1 h1 => ?_) (fun p qs slots st1 h1 => ?_) ps [] st ⟨[], rfl, here⟩
    · obtain ⟨before, -, h1⟩ := h1
      exact h1
    · obtain ⟨before, rfl, h1⟩ := h1
      exact (run_course h (.seq before p qs ctx) (.inr rfl) (fun _ => .inl) h1).mono
        (fun _ _ h2 => ⟨before ++ [p], by simp, h2⟩) (fun _ h2 => h2.trans (.move _ _))
        (fun _ hh => hh)
  | alt p q =>
    rw [step, meets_alt]
    refine (part_course h (by simp [Grammar.parts]) (.refl ctx) rfl rfl here).mono
      (fun _ _ h1 => h1) (fun st1 h1 => ?_) (fun _ hh => hh)
    dsimp only
    split
    · exact h1
    · exact part_course h (by simp [Grammar.parts]) (.refl ctx) rfl rfl h1
  | diff p q =>
    rw [step, meets_diff]
    refine (part_course h (by simp [Grammar.parts]) (.refl ctx) rfl rfl here).mono
      (fun _ _ h1 => h1.trans (.move _ _)) (fun st1 h1 => ?_) (fun _ hh => hh)
    exact part_course h (by simp [Grammar.parts]) (.refl ctx) rfl rfl h1
  | list p d =>
    have hp (st1 : State) (h1 : Course env (.list p d) ctx st st1) :=
      part_course (q := p) h (by simp [Grammar.parts]) (.refl ctx) rfl rfl h1
    have hd (st1 : State) (h1 : Course env (.list p d) ctx st st1) :=
      part_course (q := d) h (by simp [Grammar.parts]) (.refl ctx) rfl rfl h1
    rw [step, list, Outcome.meets_cases]
    refine (hp st here).mono (fun v st1 h1 => ?_) (fun _ h1 => h1) (fun _ hh => hh)
    refine endRepeat_course (listLoop_settles (fun _ _ st2 => Course env (.list p d) ctx st st2)
      (fun _ _ h2 => .here h2) (fun _ _ st2 h2 => ?_) _ [v] st1 h1)
    refine (hd st2 h2).mono (fun _ st3 h3 => ?_) (fun _ h3 => h3) (fun _ hh => hh)
    exact (hp st3 h3).mono (fun _ _ h4 => ⟨fun _ => h4, fun _ => h4⟩)
      (fun _ h4 => h4.trans (.move _ _)) (fun _ hh => hh)
  | opt p =>
    rw [step, meets_opt]
    refine (part_course h List.mem_cons_self (.refl ctx) rfl rfl here).mono (fun _ _ h1 => h1)
      (fun st1 h1 => ?_) (fun _ hh => hh)
    dsimp only
    split <;> exact h1
  | ahead p =>
    rw [step, meets_ahead]
    exact (part_course h List.mem_cons_self (.refl ctx) rfl rfl here).mono
      (fun _ _ h1 => h1.trans (.move _ _)) (fun _ h1 => h1.trans (.move _ _)) (fun _ hh => hh)
  | notAhead p =>
    rw [step, meets_notAhead]
    exact (part_course h List.mem_cons_self (.refl ctx) rfl rfl here).mono
      (fun _ _ h1 => h1.trans (.move _ _)) (fun _ h1 => h1.trans (.move _ _)) (fun _ hh => hh)
  | kleene p =>
    exact times_course (fun _ => part_course h List.mem_cons_self (.refl ctx) rfl rfl) p.ty 0 none
  | plus p =>
    exact times_course (fun _ => part_course h List.mem_cons_self (.refl ctx) rfl rfl) p.ty 1 none
  | times min max p =>
    exact times_course (fun _ => part_course h List.mem_cons_self (.refl ctx) rfl rfl) p.ty min max
  | seek p =>
    refine seekLoop_meets (fun _ _ st1 => Course env (.seek p) ctx st st1)
      (fun offset rest st1 h1 => ?_) _ _ st here
    exact (part_course h List.mem_cons_self (.refl ctx) rfl rfl
        (h1.trans (.move _ ⟨offset, rest⟩))).mono
      (fun _ _ h2 => h2) (fun _ h2 => ⟨fun _ => h2.trans (.move _ _), fun _ _ _ _ => h2⟩)
      (fun _ hh => hh)
  | expect p =>
    rw [step, meets_expect]
    have hp := part_course (q := p) h List.mem_cons_self (.refl ctx) rfl rfl here
    cases hparse : parse env n p ctx st with
    | matched v st1 =>
      rw [hparse] at hp
      exact hp
    | failed st1 =>
      rw [hparse] at hp
      rw [Outcome.meets_failed]
      dsimp only
      split
      · rename_i ht
        have hskipped : Settles (skipOver env (parse env n) ctx st1) _ _ :=
          skipOver_course h rfl hp
        cases hskip : skipOver env (parse env n) ctx st1 with
        | ok st2 =>
          rw [hskip] at hskipped
          exact (Course.trans hskipped (.miss ht hparse hskip)).trans (.move _ _)
        | error hlt =>
          rw [hskip] at hskipped
          exact hskipped
      · exact hp
    | stopped hlt =>
      rw [hparse] at hp
      exact hp
  | action p f =>
    rw [step, meets_action]
    refine (skipOver_course h rfl here).mono (fun st1 h1 => ?_) (fun _ hh => hh)
    refine (part_course h List.mem_cons_self (.refl ctx) rfl rfl h1).mono (fun v st2 h2 => ?_)
      (fun _ h2 => h2.trans (.move _ _)) (fun _ hh => hh)
    have hacted := (h2.trans (.mark st2 (i := .acted ⟨st1.offset, st2.offset⟩) rfl)).trans
      (.perform _ f ⟨st1.offset, st2.offset⟩ v (.inr rfl))
    dsimp only
    split
    · exact hacted
    · exact hacted.trans (.move _ _)
  | raw p =>
    rw [step, meets_raw]
    refine (skipOver_course h rfl here).mono (fun st1 h1 => ?_) (fun _ hh => hh)
    exact (part_course h List.mem_cons_self (.refl ctx) rfl rfl h1).mono (fun _ _ h2 => h2)
      (fun _ h2 => h2.trans (.move _ _)) (fun _ hh => hh)
  | discard p =>
    rw [step, meets_mapValue]
    exact part_course h List.mem_cons_self (.refl ctx) rfl rfl here
  | flag p =>
    rw [step, meets_flag]
    exact (part_course h List.mem_cons_self (.refl ctx) rfl rfl here).mono (fun _ _ h1 => h1)
      (fun _ h1 => h1) (fun _ hh => hh)
  | into ty p =>
    rw [step, meets_mapValue]
    exact part_course h List.mem_cons_self (.refl ctx) rfl rfl here
  | narrow ty f p =>
    rw [step, meets_narrow]
    exact (part_course h List.mem_cons_self (.refl ctx) rfl rfl here).mono
      (fun _ _ h1 => ⟨fun _ _ => h1, fun _ => h1.trans (.move _ _)⟩) (fun _ h1 => h1)
      (fun _ hh => hh)
  | lexeme p =>
    rw [step, meets_lexeme]
    refine (skipOver_course h rfl here).mono (fun st1 h1 => ?_) (fun _ hh => hh)
    exact (part_course h List.mem_cons_self (.skipping ctx false) rfl rfl h1).mono
      (fun _ _ h2 => h2) (fun _ h2 => h2.trans (.move _ _)) (fun _ hh => hh)
  | noSkip p => exact part_course h List.mem_cons_self (.skipping ctx false) rfl rfl here
  | skip p => exact part_course h List.mem_cons_self (.skipping ctx true) rfl rfl here
  | skipWith s p => exact run_course h (.skipWith s p ctx) (.inr rfl) (fun _ => .inl) here
  | noCase p => exact part_course h List.mem_cons_self (.noCase ctx true) rfl rfl here
  | bind key b p =>
    have hruns (bound : Bound) : Runs env (.bind key b p) ctx false p (ctx.bind key bound) :=
      .part List.mem_cons_self (.bind ctx key bound)
    cases b with
    | own v =>
      refine run_course h (hruns (.value v)) (.inr rfl) (fun r hr => ?_) here
      obtain he | ⟨k, -, hk⟩ := hr.of_bind
      · cases he
      · exact .inl ⟨k, hk⟩
    | annotations =>
      refine run_course h (hruns .annotations) (.inr rfl) (fun r hr => ?_) here
      obtain he | ⟨k, -, hk⟩ := hr.of_bind
      · cases he
      · exact .inl ⟨k, hk⟩
    | shared id v =>
      -- the only cell that is new in sight is the one that the node keeps
      refine run_course h (hruns (.cell (.shared id))) (.inr rfl) (fun r hr => ?_) (.openCell st)
      obtain he | ⟨k, -, hk⟩ := hr.of_bind
      · cases he
        exact .inr rfl
      · exact .inl ⟨k, hk⟩
    | fresh v =>
      rw [step, bind, meets_mapState]
      exact (h p _ _).mono (fun _ _ h1 => .fresh h1) (fun _ h1 => .fresh h1)
        (fun _ hh => .inside here (hruns (.cell (.fresh st.locals.length))) (by rfl) (by rfl) hh)
  | hide key p =>
    refine run_course h (.part List.mem_cons_self (.hide ctx key)) (.inr rfl)
      (fun r hr => ?_) here
    obtain ⟨k, -, hk⟩ := hr.of_hide
    exact .inl ⟨k, hk⟩
  | rule r =>
    refine rule_meets (fun d hd => ?_) fun _ => .here here
    exact call_course h rfl rfl (.rule hd (.varTy ctx _))
  | define r force body =>
    exact call_course (d := ⟨body, force⟩) h rfl rfl (.define (.varTy (ctx.inject _ _) _))
  | group p => exact part_course h List.mem_cons_self (.refl ctx) rfl rfl here
  | «sealed» hasAction p => exact part_course h List.mem_cons_self (.refl ctx) rfl rfl here

end Step

end Node

/-! ## Whole parses -/

/-- Every parse takes its course. -/
theorem parse_course (env : Env) (n : Nat) (g : Grammar) (ctx : Ctx) (st : State) :
    (parse env n g ctx st).Meets (TakesCourse env g ctx st) := by
  -- on the fuel: what a node runs has one level less
  induction n generalizing g ctx st with
  | zero => exact .here (.refl st)
  | succ n ih =>
    rw [parse_succ]
    exact Node.step_course ih g ctx st

/-- Skipping takes the course of the skipper. -/
theorem skipOver_skipped (env : Env) (n : Nat) (ctx : Ctx) (st : State) :
    Settles (Node.skipOver env (parse env n) ctx st) (Skipped env ctx st) fun h =>
      ∃ s, ctx.skipper = some s ∧ Underway env s Ctx.root st h.state :=
  Node.skipOver_skipped (parse_course env n) ctx st

end Peg
