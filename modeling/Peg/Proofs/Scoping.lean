/-
  Peg.Proofs.Scoping

  No rule is missing in a program whose rules are in scope. The free names of a
  grammar are those of the rules that it calls outside of a definition of them.
  A program is scoped if every free name has a definition out of line, in the
  grammar, in its skippers, each of which stands on its own, and in the bodies
  of rules. What a call finds at run time is another matter: it walks the chain
  of the place where it happens. The two meet in an invariant of contexts: the
  free names of the grammar and of every body in the chain are known there. A
  chain only grows on the way down, and skippers start from an empty one.
-/
import Peg.Grammar.Notation
import Peg.Proofs.Progress
import Peg.Proofs.Termination

namespace Peg

/-! ## Free names -/

namespace Grammar

mutual

/-- The rules that the grammar calls outside of a definition of them. A skipper is not looked
    into, for what is defined around it is out of its sight. -/
def free : Grammar → List String
  | .terminal _ | .eps _ | .attr _ _ => []
  | .rule r => [r.name]
  | .define r _ body => (free body).filter (· ≠ r.name)
  | .seq ps => freeOf ps
  | .alt p q | .diff p q | .list p q => free p ++ free q
  | .skipWith _ p => free p
  | .opt p | .ahead p | .notAhead p | .kleene p | .plus p | .times _ _ p | .seek p | .expect p
  | .action p _ | .raw p | .discard p | .flag p | .into _ p | .narrow _ _ p | .lexeme p
  | .noSkip p | .skip p | .noCase p | .bind _ _ p | .hide _ p | .group p | .sealed _ p => free p

def freeOf : List Grammar → List String
  | [] => []
  | p :: ps => free p ++ freeOf ps

end

theorem freeOf_eq (ps : List Grammar) : freeOf ps = ps.flatMap free := by
  induction ps with
  | nil => rfl
  | cons p ps ih => rw [freeOf, ih, List.flatMap_cons]

/-- The free names of a part are free in the node. -/
theorem free_of_part {g q : Grammar} (hq : q ∈ g.parts) {name : String} (h : name ∈ q.free) :
    name ∈ g.free := by
  cases g with
  | terminal | eps | attr | seq | skipWith | rule | define => cases hq
  | alt | diff | list =>
    simp only [parts, List.mem_cons, List.not_mem_nil, or_false] at hq
    rcases hq with rfl | rfl
    · exact List.mem_append_left _ h
    · exact List.mem_append_right _ h
  | _ =>
    have hself := List.mem_singleton.mp hq
    subst hself
    exact h

theorem free_of_seq {ps : List Grammar} {q : Grammar} (hq : q ∈ ps) {name : String}
    (h : name ∈ q.free) : name ∈ (seq ps).free := by
  rw [free, freeOf_eq]
  exact List.mem_flatMap.mpr ⟨q, hq, h⟩

/-- What is free in the body of a definition is the rule itself or free in the definition. -/
theorem free_of_body {r : Rule} (force : Bool) {body : Grammar} {name : String}
    (h : name ∈ body.free) : name = r.name ∨ name ∈ (define r force body).free := by
  by_cases hn : name = r.name
  · exact .inl hn
  · exact .inr (List.mem_filter.mpr ⟨h, decide_eq_true hn⟩)

/-! ## Scoped grammars -/

/-- The free names of the skipper that the node puts in force are known. -/
def skipperKnown (known : String → Bool) : Grammar → Bool
  | .skipWith s _ => s.free.all known
  | _ => true

/-- The free names of the grammar are known, and those of each skipper in it. -/
def Scoped (known : String → Bool) (g : Grammar) : Prop :=
  (∀ name ∈ g.free, known name = true) ∧ g.All (·.skipperKnown known = true)

instance (known : String → Bool) (g : Grammar) : Decidable (g.Scoped known) :=
  inferInstanceAs (Decidable (_ ∧ _))

end Grammar

/-- The rule has a definition out of line. -/
def Env.defines (env : Env) (name : String) : Bool := (env.rules name).isSome

/-- Grammars in which each skipper stands on its own. -/
def Env.scoping (env : Env) : Discipline :=
  .every (·.skipperKnown env.defines = true) (·.Scoped env.defines) fun _ _ h =>
    ⟨List.all_eq_true.mp h.self, h.child List.mem_cons_self⟩

/-! ## Names at run time -/

/-- The rule has a definition at this place. -/
def Ctx.knows (env : Env) (ctx : Ctx) (name : String) : Bool :=
  ((ctx.chain.injected? name).or (env.rules name)).isSome

/-- The free names of the grammar are known, and those of every body in the chain. -/
structure Ctx.Covers (env : Env) (ctx : Ctx) (g : Grammar) : Prop where
  free : ∀ name ∈ g.free, ctx.knows env name = true
  injected : ∀ rule d, ctx.chain.injected? rule = some d →
    ∀ name ∈ d.body.free, ctx.knows env name = true

/-- The bodies of the rules out of line are scoped. -/
def Env.Closed (env : Env) : Prop :=
  ∀ rule d, env.rules rule = some d → d.body.Scoped env.defines

namespace Ctx

variable {env : Env} {ctx ctx' : Ctx} {g q : Grammar} {name : String}

theorem knows_congr (h : ctx'.chain.injected? name = ctx.chain.injected? name) :
    ctx'.knows env name = ctx.knows env name := by
  rw [knows, knows, h]

/-- What is defined out of line is known everywhere. -/
theorem knows_of_defines (h : env.defines name = true) : ctx.knows env name = true := by
  rw [Env.defines] at h
  rw [knows, Option.isSome_or, h, Bool.or_true]

theorem knows_inject_self (rule : String) (d : Definition) :
    (ctx.inject rule d).knows env rule = true := by
  have hfound : (ctx.inject rule d).chain.injected? rule = some d := if_pos rfl
  rw [knows, hfound]
  rfl

/-- A definition hides no rule, it only takes the place of an older one. -/
theorem knows_inject {rule : String} {d : Definition} (h : ctx.knows env name = true) :
    (ctx.inject rule d).knows env name = true := by
  by_cases hn : rule = name
  · subst hn
    exact knows_inject_self rule d
  · have hfound : (ctx.inject rule d).chain.injected? name = ctx.chain.injected? name := if_neg hn
    rwa [knows, hfound]

namespace Covers

/-- Only the rules in the chain and the free names matter. -/
theorem congr (h : ctx.Covers env g)
    (hctx : ∀ name, ctx'.chain.injected? name = ctx.chain.injected? name)
    (hq : ∀ name ∈ q.free, name ∈ g.free) : ctx'.Covers env q := by
  refine ⟨fun name hname => ?_, fun rule d hd name hname => ?_⟩
  · rw [knows_congr (hctx name)]
    exact h.free name (hq name hname)
  · rw [knows_congr (hctx name)]
    rw [hctx] at hd
    exact h.injected rule d hd name hname

/-- The body that a name stands for is covered where the name is called. -/
theorem body (h : ctx.Covers env g) (henv : env.Closed) {rule : String} {d : Definition}
    (hd : (ctx.chain.injected? rule).or (env.rules rule) = some d) : ctx.Covers env d.body := by
  refine ⟨fun name hname => ?_, h.injected⟩
  rcases Option.or_eq_some_iff.mp hd with hin | ⟨-, hout⟩
  · exact h.injected rule d hin name hname
  · exact knows_of_defines ((henv rule d hout).1 name hname)

/-- The body of a definition is covered once its rule is in the chain. -/
theorem define {r : Rule} {force : Bool} {body : Grammar}
    (h : ctx.Covers env (.define r force body)) :
    (ctx.inject r.name ⟨body, force⟩).Covers env body := by
  have hbody : ∀ name ∈ body.free, (ctx.inject r.name ⟨body, force⟩).knows env name = true := by
    intro name hname
    rcases Grammar.free_of_body (r := r) force hname with rfl | hfree
    · exact knows_inject_self _ _
    · exact knows_inject (h.free name hfree)
  refine ⟨hbody, fun rule d hd name hname => ?_⟩
  -- the newest definition is the one of the rule itself, and the older ones stay known
  rw [inject, Chain.injected?] at hd
  split at hd
  · cases hd
    exact hbody name hname
  · exact knows_inject (h.injected rule d hd name hname)

/-- A skipper starts from an empty chain, where only the rules out of line are known. -/
theorem root (h : q.Scoped env.defines) : root.Covers env q :=
  ⟨fun name hname => knows_of_defines (h.1 name hname), nofun⟩

end Covers

end Ctx

/-! ## Parses -/

variable {env : Env} {g q : Grammar} {ctx ctx' : Ctx}

/-- The bodies of rules out of line follow the discipline. -/
theorem Env.Closed.under (henv : env.Closed) : env.Under env.scoping :=
  fun r d _ hd => (henv r.name d hd).2

/-- What a covered node runs is covered. -/
theorem Runs.covers {moved : Bool} (h : Runs env g ctx moved q ctx') (henv : env.Closed)
    (hctx : ctx.Under env.scoping) (hg : ctx.Covers env g) : ctx'.Covers env q := by
  cases h with
  | skipper hs => exact .root (hctx.skipper q hs)
  | part hq hlike => exact hg.congr hlike.injected fun _ => Grammar.free_of_part hq
  | seq before q after =>
    have hq : q ∈ before ++ q :: after := List.mem_append_right _ List.mem_cons_self
    exact hg.congr (fun _ => rfl) fun _ => Grammar.free_of_seq hq
  | skipWith s => exact hg.congr (fun _ => rfl) fun _ h => h
  | rule hd hlike => exact (hg.body henv hd).congr hlike.injected fun _ h => h
  | define hlike => exact hg.define.congr hlike.injected fun _ h => h

/-- The grammar is in scope at this place, and each skipper stands on its own. -/
structure Ctx.Holds (env : Env) (ctx : Ctx) (g : Grammar) : Prop where
  node : env.scoping.node g
  under : ctx.Under env.scoping
  covers : ctx.Covers env g

/-- What a node runs is in scope where it runs. -/
theorem Runs.holds {moved : Bool} (h : Runs env g ctx moved q ctx') (henv : env.Closed)
    (hg : ctx.Holds env g) : ctx'.Holds env q := by
  have hcovers := h.covers henv hg.under hg.covers
  obtain ⟨hunder, hq⟩ := h.under henv.under hg.node hg.under
  rcases hq with ⟨hnode, -⟩ | ⟨hskipper, -⟩
  · exact ⟨hnode, hunder, hcovers⟩
  · exact ⟨hskipper.2, hunder, hcovers⟩

/-- A parser in scope halts for want of fuel only. -/
theorem parse_in_scope (henv : env.Closed) (n : Nat) {st : State} (hg : ctx.Holds env g)
    (hs : st.Sound env.source) :
    (parse env n g ctx st).Meets (Leads env.source (·.why = .exhausted) g st) := by
  -- on the fuel; what a node runs is in scope again, and a rule that is in scope is there
  induction n generalizing g ctx st with
  | zero => rfl
  | succ n ih =>
    rw [parse_succ]
    apply Node.step_leads g ctx st hs
    · intro moved q ctx' h st1 h1 _
      exact ih (h.holds henv hg) h1.1
    · intro r hr hmissing
      subst hr
      have hknown := hg.covers.free r.name List.mem_cons_self
      rw [Ctx.knows, hmissing] at hknown
      cases hknown

/-! ## Programs -/

namespace Program

variable {p : Program}

/-- The rule has a definition out of line. -/
def defines (p : Program) (name : String) : Bool := (p.rules.lookup name).isSome

/-- The grammar, the skipper and the bodies of all rules are scoped. -/
structure Scoped (p : Program) : Prop where
  grammar : p.grammar.Scoped p.defines
  skipper : ∀ s, p.skipper = some s → s.Scoped p.defines
  rules : ∀ entry ∈ p.rules, entry.2.body.Scoped p.defines

theorem Scoped.closed (hp : p.Scoped) (source : Text) : (p.env source).Closed :=
  fun _ _ hd => hp.rules _ (p.mem_of_env hd)

/-- The grammar of a scoped program is in scope where a run begins. -/
theorem Scoped.holds (hp : p.Scoped) (options : ParseOptions) (source : Text) :
    (p.context options).Holds (p.env source) p.grammar where
  node := hp.grammar.2
  under := ⟨hp.skipper, nofun⟩
  covers := ⟨fun name hname => Ctx.knows_of_defines (hp.grammar.1 name hname), nofun⟩

theorem Scoped.runWithin_exhausted (hp : p.Scoped) (fuel : Nat) (options : ParseOptions)
    (target : Ty) (slot : Value) (source : Text) :
    Settles (p.runWithin fuel options target slot source) (fun _ => True)
      (·.why = .exhausted) := by
  have hclosed := hp.closed source
  have hholds := hp.holds options source
  have hparse := parse_in_scope hclosed fuel hholds (.start source)
  have hparts (st : State) (_ : st.Sound source) : Node.PartsLead (p.env source)
      (·.why = .exhausted) (parse (p.env source) fuel) p.grammar (p.context options) st :=
    fun h _ h1 _ => parse_in_scope hclosed fuel (h.holds hclosed hholds) h1.1
  exact (runWithin_onward hparse hparts).mono (fun _ _ => trivial) (fun _ hh => hh)

end Program

/-- No run of a scoped program comes upon a rule without a definition, or panics otherwise: with
    any fuel it ends with an answer, or for want of fuel. Where every rule stands behind a
    character before it is called again, the fuel of a run is enough, and there is an answer. -/
theorem scoped_run_answers (p : Program) (hp : p.Scoped) (options : ParseOptions) (target : Ty)
    (slot : Value) (source : Text) :
    (∀ fuel, (∃ r, p.runWithin fuel options target slot source = .ok r) ∨
      ∃ h, p.runWithin fuel options target slot source = .error h ∧ h.why = .exhausted) ∧
    (p.Guarded → ∃ r, p.run options target slot source = .ok r) := by
  constructor
  · intro fuel
    have h := hp.runWithin_exhausted fuel options target slot source
    cases hr : p.runWithin fuel options target slot source with
    | ok r => exact .inl ⟨r, rfl⟩
    | error hlt =>
      rw [hr] at h
      exact .inr ⟨hlt, rfl, h⟩
  · intro hguarded
    -- with enough fuel, the halts that are left are for missing rules
    have hdefined := hguarded.runWithin_answers (Nat.le_refl (p.fuel source)) options target slot
    have h := hp.runWithin_exhausted (p.fuel source) options target slot source
    rw [Program.run]
    cases hr : p.runWithin (p.fuel source) options target slot source with
    | ok r => exact ⟨r, rfl⟩
    | error hlt =>
      rw [hr] at h hdefined
      obtain ⟨name, hname⟩ := hdefined
      have hboth : Stop.undefinedRule name = .exhausted := hname.symm.trans h
      cases hboth

/-- A rule for brackets in brackets. -/
def bracketRule : Rule := { name := "bracket", ty := .unused }

/-- A rule for angles in angles. -/
def angleRule : Rule := { name := "angle", ty := .unused }

/-- A rule for what is skipped. -/
def gapRule : Rule := { name := "gap", ty := .unused }

open Notation in
/-- A definition inside of a definition of the same rule, below masks and bindings; a rule out of
    line that is called from there; and skippers with definitions of their own. -/
def shadowing : Program :=
  { grammar := withValue "depth" 1 <| defining bracketRule <|
      lit '(' >>> opt (without "depth" <| withLocal "count" <| defining bracketRule <|
        lit '[' >>> opt (call bracketRule) >>> lit ']') >>> opt (call angleRule) >>> lit ')'
    skipper := some <| defining gapRule <| lit '.' >>> opt (call gapRule)
    rules := [(angleRule.name,
      ⟨lit '<' >>> skipWith (defining gapRule <| lit '-' >>> opt (call gapRule))
        (opt (call angleRule) >>> lit '>'), false⟩)] }

/-- Brackets, angles and both kinds of gaps are parsed to the end of the text, and with little fuel
    the run ends for want of it. -/
theorem scoped_run_answers_shadowing :
    shadowing.Scoped ∧ shadowing.Guarded ∧
    (∃ r, shadowing.run {} .unused .unused "(.[[]].<-<>-->)".toList = .ok r ∧
      r.result.isFull = true) ∧
    ∃ h, shadowing.runWithin 3 {} .unused .unused "(.[[]].<-<>-->)".toList = .error h ∧
      h.why = .exhausted := by
  have hscoped : shadowing.Scoped := by
    refine ⟨by decide, fun s hs => ?_, by decide⟩
    cases hs
    decide
  have hguarded : shadowing.Guarded := by
    refine ⟨by decide, fun s hs => ?_, by decide⟩
    cases hs
    decide
  have hfull : (shadowing.run {} .unused .unused "(.[[]].<-<>-->)".toList).toOption.any
      (·.result.isFull) := by
    decide +kernel
  have hshort : (shadowing.runWithin 3 {} .unused .unused
      "(.[[]].<-<>-->)".toList).toOption.isNone = true := by
    decide +kernel
  have h := scoped_run_answers shadowing hscoped {} .unused .unused "(.[[]].<-<>-->)".toList
  refine ⟨hscoped, hguarded, ?_, ?_⟩
  · obtain ⟨r, hr⟩ := h.2 hguarded
    rw [hr] at hfull
    exact ⟨r, hr, hfull⟩
  · rcases h.1 3 with ⟨r, hr⟩ | hexhausted
    · rw [hr] at hshort
      cases hshort
    · exact hexhausted

end Peg
