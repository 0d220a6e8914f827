/-
  Peg.Proofs.Approximation

  One outcome approximates another when it is the same, or a halt of a given
  kind. No node looks at the halts of the parsers that it runs, so a node run with
  approximations is an approximation of the node. With halts for want of fuel this
  says that more fuel keeps every other outcome.
-/
import Peg.Proofs.Postcondition

namespace Peg

/-- `o` is `o'`, unless it is a halt of the kind `K`. -/
def Outcome.Below (K : Halt → Prop) (o o' : Outcome) : Prop :=
  o = o' ∨ ∃ h, o = .stopped h ∧ K h

/-- The same order on computations that end well or halt. -/
def ExceptBelow {α : Type} (K : Halt → Prop) (o o' : Except Halt α) : Prop :=
  o = o' ∨ ∃ h, o = .error h ∧ K h

namespace Outcome.Below

variable {K : Halt → Prop}

theorem refl (o : Outcome) : o.Below K o := .inl rfl

theorem trans {o o' o'' : Outcome} (h : o.Below K o') (h' : o'.Below K o'') : o.Below K o'' := by
  obtain rfl | ⟨hlt, rfl, hK⟩ := h
  · exact h'
  · exact .inr ⟨hlt, rfl, hK⟩

/-- What goes on after a match or a failure keeps the order. -/
theorem cases {o o' : Outcome} {hit hit' : Value → State → Outcome}
    {miss miss' : State → Outcome} (h : o.Below K o')
    (hhit : ∀ v st, (hit v st).Below K (hit' v st))
    (hmiss : ∀ st, (miss st).Below K (miss' st)) :
    (o.cases hit miss).Below K (o'.cases hit' miss') := by
  obtain rfl | ⟨hlt, rfl, hK⟩ := h
  · cases o with
    | matched v st => exact hhit v st
    | failed st => exact hmiss st
    | stopped hlt => exact refl _
  · exact .inr ⟨hlt, rfl, hK⟩

/-- A halt of another kind, and every answer, is kept. -/
theorem eq_of_not {o o' : Outcome} (h : o.Below K o') (hne : ∀ hlt, o = .stopped hlt → ¬ K hlt) :
    o = o' := by
  obtain h | ⟨hlt, ho, hK⟩ := h
  · exact h
  · exact absurd hK (hne hlt ho)

end Outcome.Below

namespace ExceptBelow

variable {K : Halt → Prop} {α : Type}

theorem refl (o : Except Halt α) : ExceptBelow K o o := .inl rfl

theorem eq_of_not {o o' : Except Halt α} (h : ExceptBelow K o o')
    (hne : ∀ hlt, o = .error hlt → ¬ K hlt) : o = o' := by
  obtain h | ⟨hlt, ho, hK⟩ := h
  · exact h
  · exact absurd hK (hne hlt ho)

end ExceptBelow

namespace Node

open Outcome (Below)

variable {K : Halt → Prop} {env : Env} {ctx : Ctx} {p p' q q' : Step}

/-! ## Loops -/

section Loops

variable (hp : ∀ st, (p st).Below K (p' st)) (hq : ∀ st, (q st).Below K (q' st))

include hp

theorem skipLoop_below (n : Nat) (st : State) :
    ExceptBelow K (skipLoop p n st) (skipLoop p' n st) := by
  induction n generalizing st with
  | zero => exact .refl _
  | succ n ih =>
    rw [skipLoop, skipLoop]
    obtain h | ⟨hlt, h, hK⟩ := hp st
    · rw [h]
      cases p' st with
      | matched v st' =>
        dsimp only
        split
        · exact .refl _
        · exact ih st'
      | failed st' => exact .refl _
      | stopped hlt => exact .refl _
    · rw [h]
      exact .inr ⟨hlt, rfl, hK⟩

theorem repeatLoop_below (n : Nat) (vs : List Value) (st : State) :
    ExceptBelow K (repeatLoop p n vs st) (repeatLoop p' n vs st) := by
  induction n generalizing vs st with
  | zero => exact .refl _
  | succ n ih =>
    rw [repeatLoop, repeatLoop]
    obtain h | ⟨hlt, h, hK⟩ := hp st
    · rw [h]
      cases p' st with
      | matched v st' =>
        dsimp only
        split
        · exact .refl _
        · exact ih _ st'
      | failed st' => exact .refl _
      | stopped hlt => exact .refl _
    · rw [h]
      exact .inr ⟨hlt, rfl, hK⟩

theorem repeatUpTo_below (n : Nat) (vs : List Value) (st : State) :
    ExceptBelow K (repeatUpTo p n vs st) (repeatUpTo p' n vs st) := by
  induction n generalizing vs st with
  | zero => exact .refl _
  | succ n ih =>
    rw [repeatUpTo, repeatUpTo]
    obtain h | ⟨hlt, h, hK⟩ := hp st
    · rw [h]
      cases p' st with
      | matched v st' => exact ih _ st'
      | failed st' => exact .refl _
      | stopped hlt => exact .refl _
    · rw [h]
      exact .inr ⟨hlt, rfl, hK⟩

include hq in
theorem listLoop_below (n : Nat) (vs : List Value) (st : State) :
    ExceptBelow K (listLoop p q n vs st) (listLoop p' q' n vs st) := by
  induction n generalizing vs st with
  | zero => exact .refl _
  | succ n ih =>
    rw [listLoop, listLoop]
    obtain h | ⟨hlt, h, hK⟩ := hq st
    · rw [h]
      cases q' st with
      | matched v st1 =>
        dsimp only
        obtain h1 | ⟨hlt, h1, hK⟩ := hp st1
        · rw [h1]
          cases p' st1 with
          | matched w st2 =>
            dsimp only
            split
            · exact .refl _
            · exact ih _ st2
          | failed st2 => exact .refl _
          | stopped hlt => exact .refl _
        · rw [h1]
          exact .inr ⟨hlt, rfl, hK⟩
      | failed st1 => exact .refl _
      | stopped hlt => exact .refl _
    · rw [h]
      exact .inr ⟨hlt, rfl, hK⟩

theorem seekLoop_below (pending : State → Bool) (start : Cursor) (offset : Nat) (rest : Text)
    (st : State) :
    (seekLoop pending p start offset rest st).Below K
      (seekLoop pending p' start offset rest st) := by
  induction rest generalizing offset st with
  | nil =>
    rw [seekLoop, seekLoop]
    obtain h | ⟨hlt, h, hK⟩ := hp (st.moveTo ⟨offset, []⟩)
    · rw [h]
      exact .refl _
    · rw [h]
      exact .inr ⟨hlt, rfl, hK⟩
  | cons c r ih =>
    rw [seekLoop, seekLoop]
    obtain h | ⟨hlt, h, hK⟩ := hp (st.moveTo ⟨offset, c :: r⟩)
    · rw [h]
      cases p' (st.moveTo ⟨offset, c :: r⟩) with
      | matched v st' => exact .refl _
      | failed st' =>
        dsimp only
        split
        · exact .refl _
        · exact ih _ st'
      | stopped hlt => exact .refl _
    · rw [h]
      exact .inr ⟨hlt, rfl, hK⟩

end Loops

theorem seqLoop_below {run run' : Grammar → Step} (h : ∀ g st, (run g st).Below K (run' g st))
    (start : Cursor) (ps : List Grammar) (slots : List Value) (st : State) :
    (seqLoop run start ps slots st).Below K (seqLoop run' start ps slots st) := by
  induction ps generalizing slots st with
  | nil => exact .refl _
  | cons p ps ih =>
    rw [seqLoop, seqLoop]
    exact (h p st).cases (fun v st' => ih _ st') (fun _ => .refl _)

/-! ## Nodes -/

section Nodes

variable {rec rec' : Grammar → Ctx → Step}

theorem afterSkip_below {o o' : Except Halt State} {k k' : Step} (h : ExceptBelow K o o')
    (hk : ∀ st, (k st).Below K (k' st)) : (afterSkip o k).Below K (afterSkip o' k') := by
  obtain rfl | ⟨hlt, rfl, hK⟩ := h
  · cases o with
    | ok st => exact hk st
    | error hlt => exact .refl _
  · exact .inr ⟨hlt, rfl, hK⟩

theorem endRepeat_below {t : Ty} {min : Nat} {start : Cursor}
    {o o' : Except Halt (List Value × State)} (h : ExceptBelow K o o') :
    (endRepeat ctx t min start o).Below K (endRepeat ctx t min start o') := by
  obtain rfl | ⟨hlt, rfl, hK⟩ := h
  · exact .refl _
  · exact .inr ⟨hlt, rfl, hK⟩

theorem times_below (hp : ∀ st, (p st).Below K (p' st)) (t : Ty) (min : Nat) (max : Option Nat)
    (st : State) : (times env ctx t min max p st).Below K (times env ctx t min max p' st) := by
  cases max with
  | none => exact endRepeat_below (repeatLoop_below hp ..)
  | some n => exact endRepeat_below (repeatUpTo_below hp ..)

variable (h : ∀ g ctx st, (rec g ctx st).Below K (rec' g ctx st))

include h

theorem skipOver_below (ctx : Ctx) (st : State) :
    ExceptBelow K (skipOver env rec ctx st) (skipOver env rec' ctx st) := by
  unfold skipOver
  split
  · exact skipLoop_below (h _ _) ..
  · exact .refl _

theorem call_below (r : Rule) (d : Definition) (ctx : Ctx) (st : State) :
    (call env rec r d ctx st).Below K (call env rec' r d ctx st) :=
  afterSkip_below (skipOver_below h ctx st) fun _ =>
    (h _ _ _).cases (fun _ _ => .refl _) (fun _ => .refl _)

/-- A node run with approximations is an approximation of the node. -/
theorem step_below (g : Grammar) (ctx : Ctx) (st : State) :
    (step env rec g ctx st).Below K (step env rec' g ctx st) := by
  have hskip (st : State) : ExceptBelow K (skipOver env rec ctx st) (skipOver env rec' ctx st) :=
    skipOver_below h ctx st
  cases g with
  | terminal t => exact afterSkip_below (hskip st) fun _ => .refl _
  | eps c =>
    simp only [step]
    split
    · exact afterSkip_below (hskip _) fun _ => .refl _
    · exact .refl _
  | attr ty v => exact .refl _
  | seq ps => exact seqLoop_below (fun g => h g ctx) ..
  | alt p q =>
    refine (h p ctx st).cases (fun _ _ => .refl _) (fun st1 => ?_)
    split
    · exact .refl _
    · exact (h q ctx st1).cases (fun _ _ => .refl _) (fun _ => .refl _)
  | diff p q => exact (h q ctx st).cases (fun _ _ => .refl _) (h p ctx)
  | list p d =>
    exact (h p ctx st).cases (fun _ _ => endRepeat_below (listLoop_below (h p ctx) (h d ctx) ..))
      (fun _ => .refl _)
  | opt p => exact (h p ctx st).cases (fun _ _ => .refl _) (fun _ => .refl _)
  | ahead p => exact (h p ctx st).cases (fun _ _ => .refl _) (fun _ => .refl _)
  | notAhead p => exact (h p ctx st).cases (fun _ _ => .refl _) (fun _ => .refl _)
  | kleene p => exact times_below (h p ctx) p.ty 0 none st
  | plus p => exact times_below (h p ctx) p.ty 1 none st
  | times min max p => exact times_below (h p ctx) p.ty min max st
  | seek p => exact seekLoop_below (h p ctx) ..
  | expect p =>
    refine (h p ctx st).cases (fun _ _ => .refl _) (fun st1 => ?_)
    split
    · exact afterSkip_below (hskip st1) fun _ => .refl _
    · exact .refl _
  | action p f =>
    exact afterSkip_below (hskip st) fun st1 =>
      (h p ctx st1).cases (fun _ _ => .refl _) (fun _ => .refl _)
  | raw p =>
    exact afterSkip_below (hskip st) fun st1 =>
      (h p ctx st1).cases (fun _ _ => .refl _) (fun _ => .refl _)
  | discard p => exact (h p ctx st).cases (fun _ _ => .refl _) (fun _ => .refl _)
  | flag p => exact (h p ctx st).cases (fun _ _ => .refl _) (fun _ => .refl _)
  | into ty p => exact (h p ctx st).cases (fun _ _ => .refl _) (fun _ => .refl _)
  | narrow ty f p => exact (h p ctx st).cases (fun _ _ => .refl _) (fun _ => .refl _)
  | lexeme p =>
    exact afterSkip_below (hskip st) fun st1 =>
      (h p _ st1).cases (fun _ _ => .refl _) (fun _ => .refl _)
  | noSkip p => exact h p _ st
  | skip p => exact h p _ st
  | skipWith s p => exact h p _ st
  | noCase p => exact h p _ st
  | bind key b p =>
    cases b with
    | own v => exact h p _ st
    | annotations => exact h p _ st
    | shared id initial => exact h p _ _
    | fresh initial =>
      simp only [step, bind]
      obtain he | ⟨hlt, he, hK⟩ := h p (ctx.bind key (.cell (.fresh st.locals.length)))
        { st with locals := initial :: st.locals }
      · rw [he]
        exact .refl _
      · rw [he]
        exact .inr ⟨hlt, rfl, hK⟩
  | hide key p => exact h p _ st
  | rule r =>
    simp only [step, rule]
    split
    · exact call_below h ..
    · exact .refl _
  | define r force body => exact call_below h ..
  | group p => exact h p ctx st
  | «sealed» hasAction p => exact h p ctx st

end Nodes

end Node

/-! ## Fuel -/

/-- The halt for want of fuel. -/
def Halt.Spent (h : Halt) : Prop := h.why = .exhausted

theorem parse_below (env : Env) {n m : Nat} (hnm : n ≤ m) (g : Grammar) (ctx : Ctx) (st : State) :
    (parse env n g ctx st).Below Halt.Spent (parse env m g ctx st) := by
  induction n generalizing m g ctx st with
  | zero =>
    -- without fuel there is only the halt that is below everything
    exact .inr ⟨_, rfl, rfl⟩
  | succ n ih =>
    obtain ⟨m, rfl⟩ : ∃ k, m = k + 1 := ⟨m - 1, by omega⟩
    rw [parse_succ, parse_succ]
    exact Node.step_below (fun g ctx st => ih (by omega) g ctx st) g ctx st

theorem Program.afterMatch_below (p : Program) {n m : Nat} (hnm : n ≤ m) (options : ParseOptions)
    (source : Text) (st : State) :
    ExceptBelow Halt.Spent (p.afterMatch n options source st)
      (p.afterMatch m options source st) := by
  rw [afterMatch, afterMatch]
  split
  · exact Node.skipOver_below (fun g ctx st => parse_below _ hnm g ctx st) _ _
  · exact .refl _

theorem Program.runWithin_below (p : Program) {n m : Nat} (hnm : n ≤ m) (options : ParseOptions)
    (target : Ty) (slot : Value) (source : Text) :
    ExceptBelow Halt.Spent (p.runWithin n options target slot source)
      (p.runWithin m options target slot source) := by
  rw [runWithin, runWithin]
  -- either part of the run may be the one that is short of fuel
  obtain h | ⟨hlt, h, hK⟩ := parse_below (p.env source) hnm p.grammar (p.context options)
    { cursor := .start source }
  · rw [h]
    split
    · exact .refl _
    · exact .refl _
    · rename_i v st _
      obtain h | ⟨hlt, h, hK⟩ := p.afterMatch_below hnm options source st
      · rw [h]
        exact .refl _
      · rw [h]
        exact .inr ⟨hlt, rfl, hK⟩
  · rw [h]
    exact .inr ⟨hlt, rfl, hK⟩

end Peg
