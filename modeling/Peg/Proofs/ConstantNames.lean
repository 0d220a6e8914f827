/-
  Peg.Proofs.ConstantNames

  What an evaluation sees of the table of constants: the numbers of the names that
  stand in the text, and nothing else. A name is looked up only after the parser of
  names has matched, whatever the context and the state, and that takes a piece of
  the text that has the form of a name. Two calculators whose tables agree on all
  such pieces therefore parse the text side by side: their rules have the same
  bodies but for the table in the action on names, and that action does the same
  for both.
-/
import Peg.Calculator.Basic
import Peg.Proofs.CalculatorSteps
import Peg.Proofs.CaseFolding
import Peg.Proofs.Regimes
import Peg.Proofs.SymbolTable

namespace Peg

open Text

-- ============================================================================
-- Names
-- ============================================================================

namespace Text

/-- No other character has the lower case of the underscore. -/
theorem lowerCase_eq_underscore {c : Char} (h : lowerCase c = lowerCase '_') : c = '_' := by
  have hmem : '_' ∈ lowerCase c := h ▸ List.mem_singleton_self '_'
  have hlow : '_'.toNat < 'a'.toNat := by decide
  exact (eq_of_mem_cased (by decide) (by decide +kernel) (by decide +kernel) hmem hlow).symm

theorem eq_underscore_of_agree {noCase : Bool} {c : Char} (h : agree noCase c '_' = true) :
    c = '_' := by
  cases noCase with
  | false => simpa [agree] using h
  | true =>
    rw [agree_noCase, beq_iff_eq] at h
    exact lowerCase_eq_underscore h

end Text

namespace Calculator

variable {env : Env} {n : Nat} {ctx : Ctx}

/-- A word goes on with characters that names go on with, also where case is ignored. -/
theorem isWordChar_of_wordTest {F : Option Failure} {c : Char} (h : wordTest ctx F c = true) :
    isWordChar c = true := by
  rw [isWordChar, Bool.or_eq_true, beq_iff_eq]
  obtain h | h := Bool.or_eq_true_iff.mp h
  · cases ctx.noCase <;> exact .inl h
  · exact .inr (eq_underscore_of_agree (Bool.and_eq_true_iff.mp h).2)

/-- Two parses of one text, which do not halt in different ways. -/
abbrev twins (env : Env) : Parallel := .twin env fun _ => False

/-- Skipping stays in the text. -/
theorem skipOver_in {st : State} (hin : st.cursor.In env.source) :
    Settles (Node.skipOver env (parse env n) ctx st) (·.cursor.In env.source) fun _ => True := by
  -- as one of two parses that do the same: states beside each other are in the text
  have hleads := Node.skipOver_leads_of_eq (P := twins env) (c := ctx) rfl rfl
    (fun s _ => parse_twin env _ n s Ctx.root) st st (Parallel.twin_beside hin st.journal)
  cases hskip : Node.skipOver env (parse env n) ctx st with
  | error h => trivial
  | ok st1 =>
    have hsettle : (twins env).Settle (twins env).Beside (.ok st1) (.ok st1) := hskip ▸ hleads
    cases hsettle with
    | ok h => exact h.cursor.inside

/-- What the body of a name takes, if it matches, has the form of a name. -/
theorem wordBody_isName (hctx : ctx.skipping = false) {st : State}
    (hin : st.cursor.In env.source) :
    (parse env n wordBody ctx st).Meets
      ⟨fun _ st' => ∃ s r, st.cursor.rest = s ++ r ∧ IsName s ∧ st'.cursor = st.cursor.past s r,
        fun _ => True, fun _ => True⟩ := by
  refine parse_meets_of_enough (k := 4) (.inr fun _ => trivial) fun n => ?_
  refine wordBody_meets hctx hin (fun a r _ hr ha => ?_) fun _ => trivial
  -- the letter, and what the loop went over
  generalize htest : wordTest ctx st.failure = f
  have hname : IsName (a :: r.takeWhile f) := by
    refine ⟨a, r.takeWhile f, rfl, ha, fun d hd => ?_⟩
    have hd := List.all_eq_true.mp List.all_takeWhile d hd
    exact isWordChar_of_wordTest (htest ▸ hd)
  refine ⟨a :: r.takeWhile f, r.dropWhile f, ?_, hname, ?_⟩
  · rw [hr, List.cons_append, List.takeWhile_append_dropWhile]
  · exact Cursor.past_past st.cursor [a] (r.takeWhile f) r (r.dropWhile f)

/-- A name that is found is a piece of the text, in every context and state. -/
theorem identifier_isName {st : State} (hin : st.cursor.In env.source) :
    (parse env n Notation.identifier ctx st).Meets
      ⟨fun v _ => ∃ s, v = .text (String.ofList s) ∧ IsName s ∧ s <:+: env.source,
        fun _ => True, fun _ => True⟩ := by
  refine parse_meets_of_enough (k := 2) (.inr fun _ => trivial) fun n => ?_
  change (parse env (n + 2) (.lexeme (.raw wordBody)) ctx st).Meets _
  rw [parse_succ, Node.step, Node.meets_lexeme]
  refine Settles.mono (skipOver_in hin) (fun st1 hin1 => ?_) fun _ h => h
  rw [parse_succ, Node.step, Node.meets_raw, skipOver_idle (.inl rfl), settles_ok]
  refine (wordBody_isName rfl hin1).mono ?_ (fun _ h => h) fun _ h => h
  rintro v st2 ⟨s, r, hrest, hname, hcursor⟩
  refine ⟨s, ?_, hname, ?_⟩
  · have hoffset : st2.offset - st1.offset = byteLength s := by
      rw [← State.offset_def st2, hcursor, Cursor.past_offset, State.offset_def,
        Nat.add_sub_cancel_left]
    rw [hoffset, hrest, takeBytes?_append]
    rfl
  · obtain ⟨before, hsource, -⟩ := hin1
    exact ⟨before, r, by rw [hsource, hrest, List.append_assoc]⟩

-- ============================================================================
-- Two tables
-- ============================================================================

/-- Only a rule looks at the rules. -/
theorem step_withRules (env : Env) (rules : String → Option Definition)
    (rec : Grammar → Ctx → Step) {g : Grammar} (hg : ∀ r, g ≠ .rule r) (ctx : Ctx) :
    Node.step { env with rules } rec g ctx = Node.step env rec g ctx := by
  cases g with
  | rule r => exact absurd rfl (hg r)
  | _ => rfl

/-- Two actions that do the same with all values that their subject can yield. -/
theorem action_congr {rec : Grammar → Ctx → Step} {p : Step} {f f' : Action} {st : State}
    (h : Settles (Node.skipOver env rec ctx st) (fun st1 => (p st1).Meets
      ⟨fun v _ => ∀ scene e, Effect.attr e = v → f scene e = f' scene e, fun _ => True,
        fun _ => True⟩) fun _ => True) :
    Node.action env rec ctx f p st = Node.action env rec ctx f' p st := by
  rw [Node.action, Node.action]
  cases hskip : Node.skipOver env rec ctx st with
  | error hlt => rfl
  | ok st1 =>
    rw [hskip, settles_ok] at h
    rw [Node.afterSkip, Node.afterSkip]
    cases hp : p st1 with
    | matched v st2 =>
      rw [hp, Outcome.meets_matched] at h
      have hperform : ∀ span st3, Node.perform env ctx f span ctx.varTy v st3 =
          Node.perform env ctx f' span ctx.varTy v st3 := by
        intro span st3
        simp only [Node.perform]
        rw [h _ _ rfl]
      simp only [Outcome.cases_matched, hperform]
    | failed st2 => rfl
    | stopped hlt => rfl

variable {T T' : Symbols Float}

/-- What stands in a grammar over one table for what stands there over another: the same, but for
    the table that names are looked up in. -/
inductive Counterpart (T T' : Symbols Float) : Grammar → Grammar → Prop where
  | same (g : Grammar) : Counterpart T T' g g
  | name : Counterpart T T' (Notation.act (resolve T) Notation.identifier)
      (Notation.act (resolve T') Notation.identifier)
  | alt {p p' : Grammar} (q : Grammar) (h : Counterpart T T' p p') :
      Counterpart T T' (.alt p q) (.alt p' q)
  | discard {p p' : Grammar} (h : Counterpart T T' p p') :
      Counterpart T T' (.discard p) (.discard p')

namespace Counterpart

variable {g g' : Grammar}

theorem ty (h : Counterpart T T' g g') : g'.ty = g.ty := by
  induction h with
  | same g => rfl
  | name => rfl
  | alt q _ ih => rw [Grammar.ty, Grammar.ty, ih]
  | discard _ _ => rfl

theorem hasAction (h : Counterpart T T' g g') : g'.hasAction = g.hasAction := by
  induction h with
  | same g => rfl
  | name => rfl
  | alt q _ ih => rw [Grammar.hasAction, Grammar.hasAction, ih]
  | discard _ ih => rw [Grammar.hasAction, Grammar.hasAction, ih]

end Counterpart

/-- The rules over the two tables have the same names, and bodies that are counterparts. -/
theorem definitions_counterpart (T T' : Symbols Float) (name : String) :
    Option.Rel (fun d d' => d'.force = d.force ∧ Counterpart T T' d.body d'.body)
      ((definitions T).lookup name) ((definitions T').lookup name) := by
  have hfactor : Counterpart T T' (factorBody T) (factorBody T') :=
    .discard (.alt _ (.alt _ (.alt _ (.alt _ .name))))
  simp only [definitions, List.lookup_cons, List.lookup_nil]
  split
  · exact .some ⟨rfl, .same _⟩
  · split
    · exact .some ⟨rfl, .same _⟩
    · split
      · exact .some ⟨rfl, hfactor⟩
      · exact .none

/-- The tables agree on every piece of the text that has the form of a name: both have the same
    number for it, or neither has one. -/
def SameNames (source : Text) (T T' : Symbols Float) : Prop :=
  ∀ s, IsName s → s <:+: source → T'.find? (String.ofList s) = T.find? (String.ofList s)

section Parallel

open Parallel (Simulates twin_identical scan_of_sameValues)

variable {rules : String → Option Definition} {rec rec' : Grammar → Ctx → Step}

/-- Names are looked up in either table with the same result. -/
theorem name_simulates (hnames : SameNames env.source T T')
    (hrec : (twins env).Simulates (parse env n Notation.identifier ctx)
      (rec' Notation.identifier ctx))
    (hskip : (twins env).Leads (Node.skipOver env (parse env n) ctx)
      (Node.skipOver env rec' ctx)) :
    (twins env).Simulates
      (Node.action env (parse env n) ctx (resolve T) (parse env n Notation.identifier ctx))
      (Node.action env rec' ctx (resolve T') (rec' Notation.identifier ctx)) := by
  intro st u h
  have hsame : Node.action env (parse env n) ctx (resolve T)
      (parse env n Notation.identifier ctx) st =
        Node.action env (parse env n) ctx (resolve T')
          (parse env n Notation.identifier ctx) st := by
    refine action_congr ((skipOver_in h.cursor.inside).mono (fun st1 hin => ?_) fun _ h => h)
    refine (identifier_isName hin).mono ?_ (fun _ h => h) fun _ h => h
    rintro _ _ ⟨s, rfl, hname, hpiece⟩ scene e he
    simp only [resolve, he, hnames s hname hpiece]
  rw [hsame]
  exact Node.action_ends twin_identical ⟨rfl, rfl, rfl, rfl⟩ hskip hrec (resolve T') st u h

/-- A rule ends alike under both tables, if the bodies of rules do. -/
theorem rule_simulates (hrules : ∀ name, Option.Rel
      (fun d d' => d'.force = d.force ∧ Counterpart T T' d.body d'.body) (env.rules name)
      (rules name))
    (hrec : ∀ g g' ctx, Counterpart T T' g g' → (twins env).Simulates (rec g ctx) (rec' g' ctx))
    (hskip : ∀ ctx, (twins env).Leads (Node.skipOver env rec ctx) (Node.skipOver env rec' ctx))
    (r : Rule) :
    (twins env).Simulates (Node.step env rec (.rule r) ctx)
      (Node.step { env with rules } rec' (.rule r) ctx) := by
  have hcall : ∀ d d' : Definition, d'.force = d.force → Counterpart T T' d.body d'.body →
      (twins env).Simulates (Node.call env rec r d ctx.outsideRules)
        (Node.call env rec' r d' ctx.outsideRules) := by
    intro d d' hforce hbody
    have hfill : Node.fillRule r d' = Node.fillRule r d := by
      funext ruleVar v
      simp only [Node.fillRule, hforce, hbody.hasAction, hbody.ty]
    exact Node.call_ends_of_bodies (.inl twin_identical) ⟨rfl, rfl, rfl, rfl⟩ hfill
      (hskip ctx.outsideRules) (hrec _ _ _ hbody)
  have hfound := hrules r.name
  intro st u h
  simp only [Node.step, Node.rule]
  cases ctx.chain.injected? r.name with
  | some d => exact hcall d d rfl (.same d.body) st u h
  | none =>
    simp only [Option.none_or]
    cases hd : env.rules r.name with
    | none =>
      rw [hd] at hfound
      cases hd' : rules r.name with
      | none => exact .stopped h
      | some d' =>
        rw [hd'] at hfound
        cases hfound
    | some d =>
      rw [hd] at hfound
      cases hd' : rules r.name with
      | none =>
        rw [hd'] at hfound
        cases hfound
      | some d' =>
        rw [hd'] at hfound
        cases hfound with
        | some hbodies => exact hcall d d' hbodies.1 hbodies.2 st u h

/-- Counterparts parse the text side by side. -/
theorem parse_counterpart (hnames : SameNames env.source T T')
    (hrules : ∀ name, Option.Rel
      (fun d d' => d'.force = d.force ∧ Counterpart T T' d.body d'.body) (env.rules name)
      (rules name)) (n : Nat) {g g' : Grammar} (h : Counterpart T T' g g') (ctx : Ctx) :
    (twins env).Simulates (parse env n g ctx) (parse { env with rules } n g' ctx) := by
  -- on the fuel, and for a node by what it is the counterpart of
  induction n generalizing g g' ctx with
  | zero => exact fun st u h => .stopped h
  | succ n ih =>
    have hskip : ∀ ctx, (twins env).Leads (Node.skipOver env (parse env n) ctx)
        (Node.skipOver env (parse { env with rules } n) ctx) := fun ctx =>
      Node.skipOver_leads_of_eq (P := twins env) rfl rfl fun s _ => ih (.same s) Ctx.root
    rw [parse_eq_step, parse_eq_step]
    cases h with
    | same g =>
      by_cases hg : ∃ r, g = .rule r
      · obtain ⟨r, rfl⟩ := hg
        exact rule_simulates hrules (fun _ _ ctx h => ih h ctx) hskip r
      · rw [step_withRules env rules _ fun r hr => hg ⟨r, hr⟩]
        refine Node.step_simulates_of_regime (Regime.equal (P := twins env)
          (M := fun _ => True) (Discipline.any_env env) (fun _ => twin_identical.allows _) trivial
          fun _ _ => scan_of_sameValues trivial rfl) ?_ ?_ trivial
          ⟨rfl, Discipline.any_ctx ctx, trivial⟩
        · rintro q c _ - ⟨rfl, -⟩
          exact ih (.same q) _
        · rintro c _ ⟨rfl, -⟩
          exact hskip _
    | name =>
      exact name_simulates hnames (ih (.same _) ctx) (hskip ctx)
    | @alt p p' q hp =>
      simp only [Node.step, hp.ty]
      exact fun st u h => Node.alt_ends rfl (ih hp ctx) (ih (.same q) ctx) p.ty q.ty st u h
    | @discard p p' hp =>
      exact fun st u h => (ih hp ctx st u h).map fun _ => .unused

end Parallel

-- ============================================================================
-- Evaluation
-- ============================================================================

variable {k k' : Calculator} {source : Text}

/-- The fuel does not depend on the table. -/
theorem fuel_eq (k k' : Calculator) (source : Text) :
    k'.program.fuel source = k.program.fuel source := by
  have hsize : k'.program.size = k.program.size := rfl
  rw [Program.fuel, Program.fuel, hsize]

/-- The result of an evaluation whose run ends in a state, or in a halt. -/
def resultAt (source : Text) (matched : Bool) (slot : Value) :
    Except Halt State → Except Error Float
  | .error h => .error (.stopped h.why)
  | .ok st => valueOf (Program.report source matched slot st)

/-- The result of an evaluation whose parse has this outcome. -/
def resultOf (k : Calculator) (fuel : Nat) (source : Text) : Outcome → Except Error Float
  | .stopped h => resultAt source false (.double 0) (.error h)
  | .failed st => resultAt source false (.double 0) (.ok st)
  | .matched v st =>
    resultAt source true (Value.merge .double k.program.grammar.ty (.double 0) v)
      (k.program.afterMatch fuel {} source st)

theorem evaluate_eq (k : Calculator) (source : String) :
    k.evaluate source = k.resultOf (k.program.fuel source.toList) source.toList
      (parse (k.program.env source.toList) (k.program.fuel source.toList) k.program.grammar
        (k.program.context {}) { cursor := .start source.toList }) := by
  rw [evaluate, Program.run, Program.runWithin]
  cases parse (k.program.env source.toList) _ k.program.grammar _ _ with
  | stopped h => rfl
  | failed st => rfl
  | matched v st =>
    dsimp only [resultOf]
    cases k.program.afterMatch _ {} source.toList st <;> rfl

theorem resultAt_of_settle {matched : Bool} {slot : Value} {a a' : Except Halt State}
    (h : (twins env).Settle (twins env).Beside a a') :
    resultAt source matched slot a' = resultAt source matched slot a := by
  cases h with
  | ok h =>
    rw [Parallel.twin_identical.eq_of_beside h]
    rfl
  | error h => rfl
  | lost h => exact h.elim

theorem resultOf_of_ends {fuel : Nat} {o o' : Outcome}
    (hafter : (twins env).Leads (k.program.afterMatch fuel {} source)
      (k'.program.afterMatch fuel {} source)) (h : (twins env).Ends o o') :
    k'.resultOf fuel source o' = k.resultOf fuel source o := by
  cases h with
  | matched hv h =>
    obtain rfl := hv trivial
    exact resultAt_of_settle (hafter _ _ h)
  | failed h => exact resultAt_of_settle (.ok h)
  | stopped h => rfl
  | lost h => exact h.elim

/-- Tables that agree on the names of the text give it the same value, or the same error. -/
theorem evaluate_of_sameNames {source : String}
    (h : SameNames source.toList k.constants k'.constants) :
    k'.evaluate source = k.evaluate source := by
  have hparse : ∀ fuel g ctx, (twins (k.program.env source.toList)).Simulates
      (parse (k.program.env source.toList) fuel g ctx)
      (parse (k'.program.env source.toList) fuel g ctx) := fun fuel g ctx =>
    parse_counterpart h (definitions_counterpart k.constants k'.constants) fuel (.same g) ctx
  have hafter : ∀ fuel, (twins (k.program.env source.toList)).Leads
      (k.program.afterMatch fuel {} source.toList)
      (k'.program.afterMatch fuel {} source.toList) := by
    intro fuel
    have hskip := Node.skipOver_leads_of_eq (P := twins (k.program.env source.toList))
      (c := k.program.context {}) rfl rfl fun s _ => hparse fuel s Ctx.root
    exact fun st u h => hskip st u h
  have hstart : (twins (k.program.env source.toList)).Beside { cursor := .start source.toList }
      { cursor := .start source.toList } :=
    Parallel.twin_beside (Cursor.start_in source.toList) []
  rw [evaluate_eq, evaluate_eq, fuel_eq k k']
  exact resultOf_of_ends (hafter _) (hparse _ k.program.grammar (k.program.context {}) _ _ hstart)

/-! ## Edits of the table -/

/-- A change of the table of constants. -/
inductive Edit where
  | define (name : String) (value : Float)
  | undefine (name : String)

/-- The name that is changed. -/
def Edit.name : Edit → String
  | .define name _ => name
  | .undefine name => name

def edit (k : Calculator) : Edit → Calculator
  | .define name value => k.define name value
  | .undefine name => k.undefine name

/-- Changes one after the other. -/
def edited (k : Calculator) (edits : List Edit) : Calculator := edits.foldl edit k

theorem edit_proper (h : k.constants.Proper) (e : Edit) : (k.edit e).constants.Proper := by
  cases e with
  | define name value => exact h.insert name value
  | undefine name => exact h.remove name

theorem edited_proper (h : k.constants.Proper) (edits : List Edit) :
    (k.edited edits).constants.Proper := by
  induction edits generalizing k with
  | nil => exact h
  | cons e edits ih => exact ih (edit_proper h e)

/-- The tables of all calculators that can be built are proper. -/
theorem standard_edited_proper (edits : List Edit) : (standard.edited edits).constants.Proper :=
  edited_proper (Symbols.ofList_proper _) edits

theorem find?_edit (h : k.constants.Proper) {e : Edit} {word : String} (hword : word ≠ e.name) :
    (k.edit e).constants.find? word = k.constants.find? word := by
  cases e with
  | define name value =>
    have hname : word ≠ name := hword
    show (k.constants.insert name value).find? word = _
    rw [Symbols.find?_insert, if_neg hname]
  | undefine name =>
    have hname : word ≠ name := hword
    show (k.constants.remove name).2.find? word = _
    rw [Symbols.find?_remove h, if_neg hname]

/-- A word that no change names keeps what the table has for it. -/
theorem find?_edited {edits : List Edit} {word : String} (h : k.constants.Proper)
    (hword : ∀ e ∈ edits, word ≠ e.name) :
    (k.edited edits).constants.find? word = k.constants.find? word := by
  induction edits generalizing k with
  | nil => rfl
  | cons e edits ih =>
    have hrest : ((k.edit e).edited edits).constants.find? word =
        (k.edit e).constants.find? word :=
      ih (edit_proper h e) fun d hd => hword d (List.mem_cons_of_mem e hd)
    have hfirst : word ≠ e.name := hword e List.mem_cons_self
    exact hrest.trans (find?_edit h hfirst)

/-- Changes of names that do not stand in the text leave its names alone. -/
theorem sameNames_edited {edits : List Edit} (h : k.constants.Proper)
    (hedits : ∀ e ∈ edits, IsName e.name.toList → ¬ e.name.toList <:+: source) :
    SameNames source k.constants (k.edited edits).constants := by
  intro s hname hpiece
  refine find?_edited h fun e he heq => ?_
  have hs : e.name.toList = s := by rw [← heq, String.toList_ofList]
  exact hedits e he (hs ▸ hname) (hs ▸ hpiece)

/-- Of its table an evaluation sees what the names that stand in the text mean, and nothing else:
    two calculators that agree on these have the same result, a value or an error. So no definition
    and no removal of another name changes it, however many there are and in whatever order. -/
theorem evaluate_sees_names_of_text (k : Calculator) (source : String) :
    (∀ k' : Calculator, SameNames source.toList k.constants k'.constants →
      k'.evaluate source = k.evaluate source) ∧
    (k.constants.Proper → ∀ edits : List Edit,
      (∀ e ∈ edits, IsName e.name.toList → ¬ e.name.toList <:+: source.toList) →
      (k.edited edits).evaluate source = k.evaluate source) :=
  ⟨fun _ h => evaluate_of_sameNames h,
    fun h _ hedits => evaluate_of_sameNames (sameNames_edited h hedits)⟩

/-- The standard table and the rate of a tax. -/
def taxed : Calculator := standard.edited [.define "rate" 0.25]

/-- A longer name, one that is taken out and one that is no name do not touch a sum. -/
theorem evaluate_sees_names_of_text_sum :
    taxed.constants.Proper ∧
      SameNames "rate+1".toList taxed.constants
        (taxed.edited [.define "rates" 1.5, .undefine "tau"]).constants ∧
      (taxed.edited [.define "rates" 1.5, .undefine "tau"]).evaluate "rate+1" =
        taxed.evaluate "rate+1" ∧
      (taxed.edited [.undefine "tau", .define "e+1" 2, .define "rates" 1.5]).evaluate "rate+1" =
        taxed.evaluate "rate+1" := by
  have hproper : taxed.constants.Proper := standard_edited_proper _
  have hsame : SameNames "rate+1".toList taxed.constants
      (taxed.edited [.define "rates" 1.5, .undefine "tau"]).constants := by
    refine sameNames_edited hproper fun e he _ => ?_
    obtain rfl | rfl : e = .define "rates" 1.5 ∨ e = .undefine "tau" := by simpa using he
    · decide
    · decide
  obtain ⟨hagree, hedits⟩ := evaluate_sees_names_of_text taxed "rate+1"
  refine ⟨hproper, hsame, hagree _ hsame, hedits hproper _ fun e he hname => ?_⟩
  obtain rfl | rfl | rfl :
      e = .undefine "tau" ∨ e = .define "e+1" 2 ∨ e = .define "rates" 1.5 := by
    simpa using he
  · decide
  · -- what stands in the text here has not the form of a name
    obtain ⟨a, u, hau, -, hu⟩ := hname
    obtain ⟨rfl, rfl⟩ : 'e' = a ∧ "+1".toList = u := by simpa [Edit.name] using hau
    simp [isWordChar] at hu
  · decide

end Calculator

end Peg
