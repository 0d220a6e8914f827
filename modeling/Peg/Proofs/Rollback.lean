/-
  Peg.Proofs.Rollback

  A parser that does not match leaves the cursor where it found it, whichever
  node refuses and for whichever reason: a terminal, a veto, an attribute that
  cannot be narrowed, a failure that is pending. Composites that put nothing back
  themselves rely on their parts, so the property is shown of all kinds of nodes
  at once, by induction on how deep parsers call each other. A run that does not
  match therefore ends at the start of the text.
-/
import Peg.Proofs.Postcondition
import Peg.Grammar.Notation

namespace Peg

/-- A failure is back at the cursor of `st`. -/
def Restores (st : State) : Post :=
  ⟨fun _ _ => True, fun st' => st'.cursor = st.cursor, fun _ => True⟩

namespace Node

variable {env : Env} {rec : Grammar → Ctx → Step} {ctx : Ctx}

/-- A computation of which nothing is asked. -/
theorem settles_trivial {α : Type} (o : Except Halt α) :
    Settles o (fun _ => True) (fun _ => True) := by
  cases o <;> trivial

theorem endRepeat_restores {t : Ty} {min : Nat} {st : State}
    (o : Except Halt (List Value × State)) :
    (endRepeat ctx t min st.cursor o).Meets (Restores st) := by
  rw [meets_endRepeat]
  refine (settles_trivial o).mono (fun r _ => ?_) (fun _ _ => trivial)
  split
  · rfl
  · trivial

/-- Whatever the skipper does, what follows it puts the cursor back. -/
theorem skipOver_restores {st : State} {done : State → Prop} (h : ∀ st1, done st1) :
    Settles (skipOver env rec ctx st) done (Restores st).halt :=
  (settles_trivial _).mono (fun st1 _ => h st1) (fun _ _ => trivial)

/-- A call is over at its own start when its body or its hook refuses. -/
theorem call_restores (r : Rule) (d : Definition) (st : State) :
    (call env rec r d ctx st).Meets (Restores st) := by
  rw [meets_call]
  refine skipOver_restores fun st1 => ?_
  refine (Outcome.meets_any _).mono (fun v st2 _ => ?_) (fun _ _ => rfl) (fun _ _ => trivial)
  exact matchRule_meets rfl (fun _ => trivial) rfl

/-- One node restores the cursor if the parsers that it runs do. -/
theorem step_restores (h : ∀ g ctx st, (rec g ctx st).Meets (Restores st)) (g : Grammar)
    (ctx : Ctx) (st : State) : (step env rec g ctx st).Meets (Restores st) := by
  cases g with
  | terminal t =>
    -- the cursor goes back to before the skipping
    rw [step, meets_afterSkip]
    exact skipOver_restores fun st1 =>
      takeTerminal_meets rfl (fun _ _ _ _ _ => trivial) (fun _ _ _ _ => trivial)
  | eps c =>
    rw [meets_eps]
    split
    · exact skipOver_restores fun _ => trivial
    · rw [condition_eq]
      rfl
  | attr ty v => trivial
  | seq ps =>
    refine seqLoop_meets (fun _ _ _ => True) (fun _ _ _ => trivial) (fun p ps slots st' _ => ?_)
      ps [] st trivial
    exact (h p ctx st').mono (fun _ _ _ => trivial) (fun _ _ => rfl) (fun _ _ => trivial)
  | alt p q =>
    rw [step, meets_alt]
    refine (h p ctx st).mono (fun _ _ _ => trivial) (fun st1 h1 => ?_) (fun _ _ => trivial)
    dsimp only
    split
    · exact h1
    · -- nothing is put back between the branches: the first one has done so
      exact (h q ctx st1).mono (fun _ _ _ => trivial) (fun st2 h2 => h2.trans h1)
        (fun _ _ => trivial)
  | diff p q =>
    rw [step, meets_diff]
    refine (h q ctx st).mono (fun _ _ _ => rfl) (fun st1 h1 => ?_) (fun _ _ => trivial)
    exact (h p ctx st1).mono (fun _ _ _ => trivial) (fun st2 h2 => h2.trans h1)
      (fun _ _ => trivial)
  | list p d =>
    -- the first element puts itself back, and the end of the repetition everything else
    rw [step, list, Outcome.meets_cases]
    exact (h p ctx st).mono (fun _ _ _ => endRepeat_restores _) (fun _ h1 => h1)
      (fun _ _ => trivial)
  | opt p =>
    rw [step, meets_opt]
    refine (h p ctx st).mono (fun _ _ _ => trivial) (fun st1 h1 => ?_) (fun _ _ => trivial)
    dsimp only
    split
    · exact h1
    · trivial
  | ahead p =>
    rw [step, meets_ahead]
    exact (h p ctx st).mono (fun _ _ _ => trivial) (fun _ _ => rfl) (fun _ _ => trivial)
  | notAhead p =>
    rw [step, meets_notAhead]
    exact (h p ctx st).mono (fun _ _ _ => rfl) (fun _ _ => trivial) (fun _ _ => trivial)
  | kleene p => exact endRepeat_restores _
  | plus p => exact endRepeat_restores _
  | times min max p => exact endRepeat_restores _
  | seek p =>
    -- the loop itself goes back, wherever the subject left the cursor
    refine seekLoop_meets (fun _ _ _ => True) (fun offset rest st' _ => ?_) _ _ _ trivial
    exact (h p ctx _).mono (fun _ _ _ => trivial)
      (fun _ _ => ⟨fun _ => rfl, fun _ _ _ _ => trivial⟩) (fun _ _ => trivial)
  | expect p =>
    -- skipping for the record is undone when the miss is recorded
    rw [step, meets_expect]
    refine (h p ctx st).mono (fun _ _ _ => trivial) (fun st1 h1 => ?_) (fun _ _ => trivial)
    dsimp only
    split
    · exact skipOver_restores fun _ => h1
    · exact h1
  | action p f =>
    rw [step, meets_action]
    refine skipOver_restores fun st1 => ?_
    refine (h p ctx st1).mono (fun v st2 _ => ?_) (fun _ _ => rfl) (fun _ _ => trivial)
    -- a veto goes back like a failure of the subject
    dsimp only
    split
    · trivial
    · rfl
  | raw p =>
    rw [step, meets_raw]
    exact skipOver_restores fun st1 =>
      (h p ctx st1).mono (fun _ _ _ => trivial) (fun _ _ => rfl) (fun _ _ => trivial)
  | discard p =>
    rw [step, meets_mapValue]
    exact h p ctx st
  | flag p =>
    rw [step, meets_flag]
    exact (h p ctx st).mono (fun _ _ _ => trivial) (fun _ _ => trivial) (fun _ _ => trivial)
  | into ty p =>
    rw [step, meets_mapValue]
    exact h p ctx st
  | narrow ty f p =>
    rw [step, meets_narrow]
    exact (h p ctx st).mono (fun _ _ _ => ⟨fun _ _ => trivial, fun _ => rfl⟩) (fun _ h1 => h1)
      (fun _ _ => trivial)
  | lexeme p =>
    rw [step, meets_lexeme]
    exact skipOver_restores fun st1 =>
      (h p _ st1).mono (fun _ _ _ => trivial) (fun _ _ => rfl) (fun _ _ => trivial)
  | noSkip p => exact h p _ st
  | skip p => exact h p _ st
  | skipWith s p => exact h p _ st
  | noCase p => exact h p _ st
  | bind key b p =>
    cases b with
    | own v => exact h p _ st
    | annotations => exact h p _ st
    | shared id initial =>
      refine (h p _ (st.openCell id initial)).mono (fun _ _ _ => trivial) (fun st1 h1 => ?_)
        (fun _ _ => trivial)
      rw [State.openCell_eq] at h1
      exact h1
    | fresh initial =>
      rw [step, bind, meets_mapState]
      exact h p _ { st with locals := initial :: st.locals }
  | hide key p => exact h p _ st
  | rule r =>
    exact rule_meets (fun d _ => call_restores r d st) (fun _ => trivial)
  | define r force body => exact call_restores r ⟨body, force⟩ st
  | group p => exact h p ctx st
  | «sealed» hasAction p => exact h p ctx st

end Node

/-- Every parser restores the cursor when it fails. -/
theorem parse_restores (env : Env) (n : Nat) (g : Grammar) (ctx : Ctx) (st : State) :
    (parse env n g ctx st).Meets (Restores st) := by
  -- on the fuel: what a node runs has one level less
  induction n generalizing g ctx st with
  | zero => trivial
  | succ n ih =>
    rw [parse_succ]
    exact Node.step_restores ih g ctx st

/-- A parser that fails, with any grammar and in any context and state, leaves the cursor where it
    was. A run that does not match ends at the start of the text and does not touch the slot. -/
theorem failure_restores :
    (∀ (env : Env) (n : Nat) (g : Grammar) (ctx : Ctx) (st st' : State),
      parse env n g ctx st = .failed st' → st'.cursor = st.cursor) ∧
    ∀ (p : Program) (fuel : Nat) (options : ParseOptions) (target : Ty) (slot : Value)
      (source : Text) (r : Program.Run),
      p.runWithin fuel options target slot source = .ok r → r.result.matched = false →
        r.result.position = 0 ∧ r.slot = slot := by
  refine ⟨fun env n g ctx st st' h => ?_, fun p fuel options target slot source r h hm => ?_⟩
  · have hr := parse_restores env n g ctx st
    rwa [h] at hr
  · have hr : Settles (p.runWithin fuel options target slot source)
        (fun r => r.result.matched = false → r.result.position = 0 ∧ r.slot = slot)
        (fun _ => True) := by
      refine runWithin_settles ((parse_restores ..).mono (fun v st _ => ?_) (fun st hc _ => ?_)
        (fun _ _ => trivial))
      · -- a match is reported as one, whatever the skipper does after it
        exact (Node.settles_trivial _).mono (fun _ _ hm => nomatch hm) (fun _ _ => trivial)
      · exact ⟨congrArg Cursor.offset hc, rfl⟩
    rw [h] at hr
    exact hr hm

/-- A rule that vetoes each match. -/
def refusedRule : Rule := { name := "refused", ty := .unused, onSuccess := some fun _ e => e.fail }

open Notation in
/-- A word, then the rule that is refused, with space between them. -/
def refusal : Program :=
  { grammar := word "let" >>> call refusedRule
    skipper := some space
    rules := [(refusedRule.name, ⟨char 'x', false⟩)] }

/-- The word and the body of the rule match, and the veto gives everything back. -/
theorem failure_restores_veto :
    (∃ st', parse (refusal.env "let x".toList) 8 refusal.grammar (refusal.context {})
        { cursor := .start "let x".toList } = .failed st' ∧
      st'.cursor = .start "let x".toList) ∧
    ∃ r, refusal.runWithin 8 {} .text (.text "kept") "let x".toList = .ok r ∧
      r.result.matched = false ∧ r.result.position = 0 ∧ r.slot = .text "kept" := by
  refine ⟨⟨_, rfl, ?_⟩, ⟨_, rfl, ?_⟩⟩
  · exact failure_restores.1 (refusal.env "let x".toList) 8 refusal.grammar (refusal.context {})
      { cursor := .start "let x".toList } _ rfl
  · exact ⟨rfl, failure_restores.2 refusal 8 {} .text (.text "kept") "let x".toList _ rfl rfl⟩

end Peg
