/-
  Peg.Proofs.Isolation

  What a parse cannot change. Actions write to the cells in sight and to the
  variable of the innermost rule, and to nothing else. A directive that binds a key
  to a cell of its own, or hides the key, takes the older cells under that key out
  of sight; a call of a rule has its own variable; a skipper sees nothing at all. So
  whatever runs inside leaves the rest as it was. The one way around is a cell that
  a node keeps: it is opened again wherever the node is parsed again.
-/
import Peg.Grammar.Command
import Peg.Grammar.Notation
import Peg.Proofs.Course
import Peg.Proofs.FurthestFailure

namespace Peg

/-! ## Cells -/

theorem lookup_assign_of_ne {α : Type} {id k : Nat} (h : k ≠ id) (v : α) (l : List (Nat × α)) :
    (assign id v l).lookup k = l.lookup k := by
  have hk : (k == id) = false := beq_eq_false_iff_ne.mpr h
  induction l with
  | nil => rw [assign, List.lookup_cons, hk]
  | cons entry r ih =>
    obtain ⟨k', w⟩ := entry
    rw [assign]
    split
    · rename_i he
      rw [List.lookup_cons, List.lookup_cons, he, hk]
    · rw [List.lookup_cons, List.lookup_cons, ih]

namespace State

variable {st st1 : State} {r r' : CellRef} {ctx : Ctx} {bound : List (Key × Value)}

/-- The cell exists: a fresh one does while its directive is being parsed, and one that is kept
    always does. -/
def Has (st : State) : CellRef → Prop
  | .shared _ => True
  | .fresh level => level < st.locals.length

theorem Has.of_length (h : st.Has r) (hlength : st1.locals.length = st.locals.length) :
    st1.Has r := by
  cases r with
  | shared id => trivial
  | fresh level => exact Nat.lt_of_lt_of_eq h hlength.symm

theorem Has.of_opens {g : Grammar} (h : g.Opens r) (st : State) : st.Has r := by
  unfold Grammar.Opens Grammar.kept? at h
  split at h
  · cases h
    trivial
  · cases h

/-- A cell beside the innermost one reads the same with and without it. -/
theorem readCell_push (h : st.Has r) (v : Value) :
    State.readCell { st with locals := v :: st.locals } r = st.readCell r := by
  cases r with
  | shared id => rfl
  | fresh level =>
    have hlevel : level < st.locals.length := h
    have hindex : st.locals.length + 1 - 1 - level = st.locals.length - 1 - level + 1 := by omega
    simp only [readCell, List.length_cons, hindex, List.getElem?_cons_succ]

/-- The innermost cell goes. -/
theorem readCell_pop (h : st.Has r) (hlength : st1.locals.length = st.locals.length + 1) :
    State.readCell { st1 with locals := st1.locals.drop 1 } r = st1.readCell r := by
  obtain ⟨v, l, hl⟩ := List.exists_cons_of_length_eq_add_one hlength
  have hhas : State.Has { st1 with locals := l } r := by
    refine h.of_length ?_
    rw [hl, List.length_cons] at hlength
    exact Nat.succ.inj hlength
  rw [hl, List.drop_one, List.tail_cons, ← readCell_push hhas v]
  simp only [readCell, hl]

theorem readCell_writeCell_of_ne (hne : r' ≠ r) (hr : st.Has r) (hr' : st.Has r') (v : Value) :
    (st.writeCell v r').readCell r = st.readCell r := by
  cases r with
  | shared id =>
    cases r' with
    | shared id' =>
      have hid : id ≠ id' := fun he => hne (he ▸ rfl)
      simp only [writeCell, readCell, lookup_assign_of_ne hid]
    | fresh level' => rfl
  | fresh level =>
    cases r' with
    | shared id' => rfl
    | fresh level' =>
      -- levels of cells that exist are at different places of the list
      have hlevel : level ≠ level' := fun he => hne (he ▸ rfl)
      have hlt : level < st.locals.length := hr
      have hlt' : level' < st.locals.length := hr'
      simp only [writeCell, readCell, List.length_set]
      rw [List.getElem?_set_ne (by omega)]

theorem storeOne_length (bound : List (Key × Value)) (st : State) (entry : Key × Bound) :
    (storeOne bound st entry).locals.length = st.locals.length := by
  unfold storeOne
  split
  · rename_i r _ _ _
    cases r with
    | shared id => rfl
    | fresh level => exact List.length_set
  · rfl

theorem readCell_storeOne (entry : Key × Bound)
    (hentry : ∀ r', entry.2 = .cell r' → r' ≠ r ∧ st.Has r') (hr : st.Has r) :
    (storeOne bound st entry).readCell r = st.readCell r := by
  unfold storeOne
  split
  · rename_i r' v hcell _
    obtain ⟨hne, hr'⟩ := hentry r' hcell
    exact readCell_writeCell_of_ne hne hr hr' v
  · rfl

theorem foldl_storeOne_length (bound : List (Key × Value)) (entries : List (Key × Bound))
    (st : State) : (entries.foldl (storeOne bound) st).locals.length = st.locals.length := by
  induction entries generalizing st with
  | nil => rfl
  | cons entry entries ih => rw [List.foldl_cons, ih, storeOne_length]

/-- What an action left is stored in other cells than `r`. -/
theorem readCell_foldl_storeOne (entries : List (Key × Bound))
    (hentries : ∀ entry ∈ entries, ∀ r', entry.2 = .cell r' → r' ≠ r ∧ st.Has r')
    (hr : st.Has r) : (entries.foldl (storeOne bound) st).readCell r = st.readCell r := by
  induction entries generalizing st with
  | nil => rfl
  | cons entry entries ih =>
    obtain ⟨hentry, hrest⟩ := List.forall_mem_cons.mp hentries
    have hlength := storeOne_length bound st entry
    rw [List.foldl_cons, ih (fun entry' h r' he => ?_) (hr.of_length hlength),
      readCell_storeOne entry hentry hr]
    obtain ⟨hne, hr'⟩ := hrest entry' h r' he
    exact ⟨hne, hr'.of_length hlength⟩

theorem readCell_openCell (id : Nat) (v : Value) (hne : r ≠ .shared id) :
    (st.openCell id v).readCell r = st.readCell r := by
  unfold openCell
  split
  · rfl
  · cases r with
    | shared id' =>
      have hid : id' ≠ id := fun he => hne (he ▸ rfl)
      simp only [readCell, lookup_assign_of_ne hid]
    | fresh level => rfl

end State

/-! ## Cells out of sight -/

/-- The cells in sight exist. They do where a run begins, and then in every context and state that
    the run comes to. -/
def Ctx.Alive (ctx : Ctx) (st : State) : Prop := ∀ r, ctx.Shows r → st.Has r

theorem Program.context_alive (p : Program) (options : ParseOptions) (st : State) :
    (p.context options).Alive st := fun _ ⟨_, h⟩ => nomatch h

/-- Neither the parser nor anything that it comes to run opens the cell. -/
def NeverOpens (env : Env) (g : Grammar) (ctx : Ctx) (r : CellRef) : Prop :=
  ∀ q ctx', ComesTo env g ctx q ctx' → ¬ q.Opens r

section

variable {env : Env} {g p q : Grammar} {ctx ctx' : Ctx} {moved : Bool} {st st1 : State}
  {r : CellRef} {key : Key} {v : Value}

/-- What a parser shows to the parsers that it runs exists too. -/
theorem Ctx.Alive.run (h : ctx.Alive st) (hshows : ∀ r, ctx'.Shows r → ctx.Shows r ∨ g.Opens r) :
    ctx'.Alive st := fun r hr => (hshows r hr).elim (h r) fun ho => .of_opens ho st

theorem NeverOpens.next (h : NeverOpens env g ctx r) (hq : Runs env g ctx moved q ctx') :
    NeverOpens env q ctx' r := fun q' ctx'' hcomes => h q' ctx'' (.next hq hcomes)

/-- A cell is never opened if no node of the grammar, of the skipper in force and of the bodies of
    rules opens it. -/
theorem NeverOpens.of_nodes (hg : g.All (¬ ·.Opens r))
    (hrules : ∀ name d, env.rules name = some d → d.body.All (¬ ·.Opens r))
    (hskipper : ∀ s, ctx.skipper = some s → s.All (¬ ·.Opens r))
    (hinjected : ∀ name d, ctx.chain.injected? name = some d → d.body.All (¬ ·.Opens r)) :
    NeverOpens env g ctx r := by
  let D : Discipline := .every (¬ ·.Opens r) (·.All (¬ ·.Opens r))
    fun s p h => h.child List.mem_cons_self
  have henv : env.Under D := fun rule d _ hd => hrules rule.name d hd
  intro q ctx' h
  exact (h.under henv (fun _ hs => hs) hg ⟨hskipper, hinjected⟩).self

/-- A parse ends with as many fresh cells as there were. -/
theorem Course.locals_length (h : Course env g ctx st st1) :
    st1.locals.length = st.locals.length := by
  induction h with
  | refl | move | ask | mark | miss => rfl
  | trans _ _ ih ih' => exact ih'.trans ih
  | perform => exact State.foldl_storeOne_length ..
  | run _ _ _ _ ih => exact ih
  | call _ _ _ _ ih => exact ih
  | openCell st => rw [State.openCell_eq]
  | fresh _ ih =>
    rw [List.length_cons] at ih
    rw [List.length_drop, ih, Nat.add_sub_cancel]

theorem Ctx.Alive.after (h : ctx.Alive st) (hg : Course env g ctx st st1) : ctx.Alive st1 :=
  fun r hr => (h r hr).of_length hg.locals_length

/-- A cell of its own keeps the older cells of the key out of sight. -/
theorem Ctx.not_shows_fresh (hr : st.Has r)
    (hkey : ∀ k, ctx.chain.find? k = some (.cell r) → k = key) :
    ¬ (ctx.bind key (.cell (.fresh st.locals.length))).Shows r := by
  intro hshows
  obtain he | ⟨k, hne, hk⟩ := hshows.of_bind
  · -- the new cell did not exist before
    cases he
    exact Nat.lt_irrefl _ hr
  · exact hne (hkey k hk)

theorem State.Has.push (h : st.Has r) (v : Value) :
    State.Has { st with locals := v :: st.locals } r := by
  cases r with
  | shared id => trivial
  | fresh level => exact Nat.lt_succ_of_lt h

theorem Ctx.Alive.fresh (h : ctx.Alive st) (key : Key) (v : Value) :
    (ctx.bind key (.cell (.fresh st.locals.length))).Alive
      { st with locals := v :: st.locals } := by
  intro r hshows
  obtain he | ⟨k, -, hk⟩ := hshows.of_bind
  · cases he
    exact Nat.lt_succ_self _
  · exact (h r ⟨k, hk⟩).push v

/-- A parse leaves every cell alone that is not in sight and that nothing it runs opens. -/
theorem Course.readCell (h : Course env g ctx st st1) (halive : ctx.Alive st) (hr : st.Has r)
    (hhidden : ¬ ctx.Shows r) (hshut : NeverOpens env g ctx r) :
    st1.readCell r = st.readCell r := by
  induction h with
  | refl | move | ask | mark | miss => rfl
  | trans h _ ih ih' =>
    have hthen := ih' (halive.after h) (hr.of_length h.locals_length) hhidden hshut
    exact hthen.trans (ih halive hr hhidden hshut)
  | perform =>
    -- an action writes to what is in sight
    refine State.readCell_foldl_storeOne _ (fun entry hentry r' he => ?_) hr
    obtain ⟨k, b⟩ := entry
    obtain rfl : b = .cell r' := he
    have hshows := Ctx.shows_of_inSight hentry
    exact ⟨fun he => hhidden (he ▸ hshows), halive r' hshows⟩
  | run h _ hshows _ ih =>
    refine ih (halive.run hshows) hr (fun hr' => ?_) (hshut.next h)
    obtain hr' | hr' := hshows r hr'
    · exact hhidden hr'
    · exact hshut _ _ (.here _ _) hr'
  | @call g _ _ _ _ _ _ h hshows _ _ ih =>
    have hinner := halive.run (g := g) fun r' hr' => .inl (hshows r' hr')
    exact ih hinner hr (fun hr' => hhidden (hshows r hr')) (hshut.next h)
  | openCell st =>
    exact State.readCell_openCell _ _ fun he => hshut _ _ (.here _ _) (congrArg some he.symm)
  | fresh hp ih =>
    have hinner := ih (halive.fresh _ _) (hr.push _)
      (Ctx.not_shows_fresh hr fun k hk => absurd ⟨k, hk⟩ hhidden)
      (hshut.next (.part List.mem_cons_self (.bind _ _ _)))
    rw [State.readCell_pop hr hp.locals_length, hinner, State.readCell_push hr]

/-- A skipper leaves every cell alone that it does not open itself. -/
theorem Skipped.readCell (h : Skipped env ctx st st1) (hr : st.Has r)
    (hshut : ∀ s, ctx.skipper = some s → NeverOpens env s Ctx.root r) :
    st1.readCell r = st.readCell r := by
  obtain rfl | ⟨s, hs, h⟩ := h
  · rfl
  · exact h.readCell (fun r' hr' => absurd hr' (Ctx.root_shows r')) hr (Ctx.root_shows r)
      (hshut s hs)

end

/-! ## Isolation -/

section

variable {env : Env} {n : Nat} {p : Grammar} {ctx : Ctx} {st : State} {r : CellRef} {key : Key}

end

/-- A rule for a letter. -/
def initialRule : Rule := { name := "initial", ty := .char }

open Notation in
/-- The letter, which goes to the variable of its rule and counts, as the spaces before it do. -/
def initial : Program :=
  { grammar := call initialRule
    skipper := some (act (Command.action [.bump]) (lit ' '))
    rules := [(initialRule.name, ⟨act (Command.action [.varSet, .bump]) (char 'a'), false⟩)] }

end Peg
