/-
  Peg.Proofs.Termination

  Parses come to an answer when every rule that a body calls stands behind a
  character. The nesting of parsers is then bounded by a measure that has three
  parts: what is left of the text, how far a grammar descends before it takes a
  character or enters a body, and how far the skipper in force does. A call from
  the top of a program may enter a body at once, and so a grammar that calls
  rules freely weighs more than any body. Loops need no part of the measure: each
  round that goes on has moved.
-/
import Peg.Grammar.Notation
import Peg.Proofs.Approximation
import Peg.Proofs.Progress

namespace Peg

/-! ## Guarded grammars -/

namespace Grammar

mutual

/-- Every rule that the grammar calls has, on the way down to it, a sequence with a character among
    the parts before. What a definition calls is up to the body of the definition. -/
def guarded : Grammar → Bool
  | .terminal _ | .eps _ | .attr _ _ | .define _ _ _ => true
  | .rule _ => false
  | .seq ps => guardedSeq ps
  | .alt p q | .diff p q | .list p q | .skipWith p q => guarded p && guarded q
  | .opt p | .ahead p | .notAhead p | .kleene p | .plus p | .times _ _ p | .seek p | .expect p
  | .action p _ | .raw p | .discard p | .flag p | .into _ p | .narrow _ _ p | .lexeme p
  | .noSkip p | .skip p | .noCase p | .bind _ _ p | .hide _ p | .group p | .sealed _ p =>
    guarded p

/-- The same of the parts of a sequence; what comes after a character is free. -/
def guardedSeq : List Grammar → Bool
  | [] => true
  | p :: ps => guarded p && (p.isCharacter || guardedSeq ps)

end

theorem guarded_of_part {g q : Grammar} (hg : g.guarded = true) (hq : q ∈ g.parts) :
    q.guarded = true := by
  cases g with
  | terminal | eps | attr | seq | skipWith | rule | define => cases hq
  | alt | diff | list =>
    simp only [guarded, Bool.and_eq_true] at hg
    simp only [parts, List.mem_cons, List.not_mem_nil, or_false] at hq
    obtain rfl | rfl := hq
    · exact hg.1
    · exact hg.2
  | _ =>
    obtain rfl := List.mem_singleton.mp hq
    exact hg

theorem guarded_of_seq {before after : List Grammar} {q : Grammar}
    (hg : guardedSeq (before ++ q :: after) = true)
    (hbefore : before.any (·.isCharacter) = false) : q.guarded = true := by
  -- without a character before it, the part is reached part by part
  induction before with
  | nil =>
    rw [List.nil_append, guardedSeq, Bool.and_eq_true] at hg
    exact hg.1
  | cons p before ih =>
    rw [List.any_cons, Bool.or_eq_false_iff] at hbefore
    rw [List.cons_append, guardedSeq, hbefore.1, Bool.false_or, Bool.and_eq_true] at hg
    exact ih hg.2 hbefore.2

/-- The body is guarded if the node is a definition. -/
def guardsBody : Grammar → Bool
  | .define _ _ body => body.guarded
  | _ => true

/-! ## How far a grammar descends -/

/-- How far a grammar of at most `S` nodes descends, at one place of the text. A guarded grammar
    descends through its own nodes only; any other may enter a guarded body at each node. -/
def cost (S : Nat) (g : Grammar) : Nat := if g.guarded then g.size else g.size * (S + 2)

variable {S : Nat}

theorem cost_le (S : Nat) (g : Grammar) : g.cost S ≤ g.size * (S + 2) := by
  rw [cost]
  split
  · exact Nat.le_mul_of_pos_right _ (Nat.succ_pos _)
  · exact Nat.le_refl _

theorem cost_le_of_size {g : Grammar} (h : g.size ≤ S) : g.cost S ≤ S * (S + 2) :=
  Nat.le_trans (cost_le S g) (Nat.mul_le_mul_right _ h)

theorem size_le_cost (S : Nat) (g : Grammar) : g.size ≤ g.cost S := by
  rw [cost]
  split
  · exact Nat.le_refl _
  · exact Nat.le_mul_of_pos_right _ (Nat.succ_pos _)

theorem cost_pos (S : Nat) (g : Grammar) : 0 < g.cost S :=
  Nat.lt_of_lt_of_le g.size_pos (size_le_cost S g)

/-- A smaller grammar that is guarded when the larger one is descends less far. -/
theorem cost_lt {g q : Grammar} (hsize : q.size < g.size)
    (hguarded : g.guarded = true → q.guarded = true) : q.cost S < g.cost S := by
  -- an unguarded grammar pays for a whole body at each of its nodes, and the smaller one has less
  by_cases hg : g.guarded = true
  · rwa [cost, cost, if_pos hg, if_pos (hguarded hg)]
  · rw [cost.eq_def S g, if_neg hg]
    exact Nat.lt_of_le_of_lt (cost_le S q) (Nat.mul_lt_mul_of_pos_right hsize (Nat.succ_pos _))

/-- A directive for another skipper pays for the skipper as well as for its subject. -/
theorem cost_skipWith (S : Nat) (s p : Grammar) :
    s.cost S + p.cost S < (skipWith s p).cost S := by
  by_cases hg : (skipWith s p).guarded = true
  · have h := hg
    rw [guarded, Bool.and_eq_true] at h
    rw [cost, cost, cost, if_pos hg, if_pos h.1, if_pos h.2, size]
    exact Nat.lt_succ_self _
  · rw [cost.eq_def S (skipWith s p), if_neg hg, size, Nat.add_mul, Nat.add_mul]
    have hs := cost_le S s
    have hp := cost_le S p
    omega

end Grammar

/-! ## Guarded programs -/

/-- The bodies of all definitions and of all rules are guarded. -/
structure Program.Guarded (p : Program) : Prop where
  grammar : p.grammar.All (·.guardsBody = true)
  skipper : ∀ s, p.skipper = some s → s.All (·.guardsBody = true)
  rules : ∀ entry ∈ p.rules, entry.2.body.guarded = true ∧ entry.2.body.All (·.guardsBody = true)

/-- Grammars of at most `S` nodes in which definitions have guarded bodies. -/
def guardedWithin (S : Nat) : Discipline where
  node g := g.size ≤ S ∧ g.All (·.guardsBody = true)
  skipper g := g.size ≤ S ∧ g.All (·.guardsBody = true)
  body g := (g.size ≤ S ∧ g.All (·.guardsBody = true)) ∧ g.guarded = true
  child h hq := ⟨Nat.le_trans (Nat.le_of_lt (Grammar.size_lt_of_child hq)) h.1, h.2.child hq⟩
  skipWith h :=
    have hs := List.mem_cons_self
    ⟨Nat.le_trans (Nat.le_of_lt (Grammar.size_lt_of_child hs)) h.1, h.2.child hs⟩
  define h :=
    have hb := List.mem_cons_self
    ⟨⟨Nat.le_trans (Nat.le_of_lt (Grammar.size_lt_of_child hb)) h.1, h.2.child hb⟩, h.2.self⟩
  ofBody h := h.1

variable {S : Nat}

/-- What runs under this discipline is under it. -/
theorem Runs.keeps_guarded {env : Env} {g q : Grammar} {ctx ctx' : Ctx} {moved : Bool}
    (h : Runs env g ctx moved q ctx') (henv : env.Under (guardedWithin S))
    (hg : (guardedWithin S).node g) (hctx : ctx.Under (guardedWithin S)) :
    (guardedWithin S).node q ∧ ctx'.Under (guardedWithin S) := by
  obtain ⟨hctx', ⟨hq, -⟩ | ⟨hq, -⟩⟩ := h.under henv hg hctx
  · exact ⟨hq, hctx'⟩
  · exact ⟨hq, hctx'⟩

/-! ## The measure -/

/-- How far the skipper in force descends. -/
def Ctx.cost (S : Nat) (ctx : Ctx) : Nat :=
  match ctx.skipper with
  | some s => s.cost S
  | none => 0

theorem Ctx.cost_of_skipper {ctx ctx' : Ctx} (h : ctx'.skipper = ctx.skipper) :
    ctx'.cost S = ctx.cost S := by
  rw [Ctx.cost, Ctx.cost, h]

/-- How deep parsers can call each other from here on: each place of the text that is left allows
    for one descent of a grammar of `S` nodes. -/
def depth (S : Nat) (env : Env) (g : Grammar) (ctx : Ctx) (st : State) : Nat :=
  (env.length - st.offset) * (S * (S + 2) + 1) + g.cost S + ctx.cost S

/-- At one place of the text, what a node runs descends less far than the node. -/
theorem Runs.cost_lt {env : Env} {g q : Grammar} {ctx ctx' : Ctx} {moved : Bool}
    (h : Runs env g ctx moved q ctx') (henv : env.Under (guardedWithin S))
    (hg : (guardedWithin S).node g) (hctx : ctx.Under (guardedWithin S))
    (hmoved : moved = false) : q.cost S + ctx'.cost S < g.cost S + ctx.cost S := by
  cases h with
  | skipper hs =>
    -- the skipper is paid for beside the node, and has no skipper of its own
    have hpos := g.cost_pos S
    have hroot : Ctx.root.cost S = 0 := rfl
    have hctx : ctx.cost S = q.cost S := by rw [Ctx.cost, hs]
    omega
  | part hq hlike =>
    rw [Ctx.cost_of_skipper hlike.skipper]
    refine Nat.add_lt_add_right (Grammar.cost_lt ?_ fun h => Grammar.guarded_of_part h hq) _
    exact Grammar.size_lt_of_child (Grammar.children_of_parts hq)
  | seq before q after =>
    refine Nat.add_lt_add_right (Grammar.cost_lt ?_ fun h => ?_) _
    · exact Grammar.size_lt_of_child (List.mem_append_right _ List.mem_cons_self)
    · rw [Grammar.guarded] at h
      exact Grammar.guarded_of_seq h hmoved
  | skipWith s =>
    have hcost := Grammar.cost_skipWith S s q
    have hskipper : Ctx.cost S { ctx with skipper := some s, skipping := true } = s.cost S := rfl
    omega
  | rule hd hlike =>
    -- a body is guarded, and has fewer nodes than a call may descend
    rw [Ctx.cost_of_skipper hlike.skipper]
    refine Nat.add_lt_add_right ?_ _
    have hbody := hctx.body henv hg hd
    have hcall (r : Rule) : (Grammar.rule r).cost S = S + 2 := Nat.one_mul _
    rw [hcall, Grammar.cost, if_pos hbody.2]
    have hsize := hbody.1.1
    omega
  | define hlike =>
    -- the body of a definition is guarded, whether the definition was or not
    rw [Ctx.cost_of_skipper hlike.skipper]
    refine Nat.add_lt_add_right (Grammar.cost_lt (Grammar.size_lt_of_child List.mem_cons_self) ?_) _
    exact fun _ => hg.2.self

/-- Only a part of a sequence runs after a character, in the context of the sequence. -/
theorem Runs.ctx_of_moved {env : Env} {g q : Grammar} {ctx ctx' : Ctx} {moved : Bool}
    (h : Runs env g ctx moved q ctx') (hmoved : moved = true) : ctx' = ctx := by
  cases h with
  | seq before q after => rfl
  | _ => cases hmoved

/-- What a node runs is nested less deep than the node. -/
theorem Runs.depth_lt {env : Env} {g q : Grammar} {ctx ctx' : Ctx} {moved : Bool} {st st1 : State}
    (h : Runs env g ctx moved q ctx') (henv : env.Under (guardedWithin S))
    (hg : (guardedWithin S).node g) (hctx : ctx.Under (guardedWithin S))
    (h1 : st.Onward env.source st1) (hmoved : moved = true → st.offset < st1.offset) :
    depth S env q ctx' st1 < depth S env g ctx st := by
  cases moved with
  | false =>
    have hcost := h.cost_lt henv hg hctx rfl
    have hplace : (env.length - st1.offset) * (S * (S + 2) + 1) ≤
        (env.length - st.offset) * (S * (S + 2) + 1) :=
      Nat.mul_le_mul_right _ (Nat.sub_le_sub_left h1.2 _)
    simp only [depth]
    omega
  | true =>
    -- a place of the text is used up, and pays for the whole descent that follows
    have hlt := hmoved rfl
    have hle : st1.offset ≤ env.length := env.length_eq ▸ h1.1.cursor.isBoundary.le
    have hq := Grammar.cost_le_of_size (h.keeps_guarded henv hg hctx).1.1
    have hctx' : ctx'.cost S = ctx.cost S := by rw [h.ctx_of_moved rfl]
    have hplace : (env.length - st1.offset + 1) * (S * (S + 2) + 1) ≤
        (env.length - st.offset) * (S * (S + 2) + 1) :=
      Nat.mul_le_mul_right _ (by omega)
    rw [Nat.add_mul, Nat.one_mul] at hplace
    simp only [depth]
    omega

/-! ## Parses -/

/-- With more fuel than the measure, a parser comes to an answer. -/
theorem parse_answers {env : Env} (henv : env.Under (guardedWithin S)) {n : Nat} {g : Grammar}
    {ctx : Ctx} {st : State} (hg : (guardedWithin S).node g) (hctx : ctx.Under (guardedWithin S))
    (hs : st.Sound env.source) (hn : depth S env g ctx st < n) :
    (parse env n g ctx st).Meets (Leads env.source Halt.Undefined g st) := by
  -- on the fuel, with the measure below it: what the node runs has less of both
  induction n generalizing g ctx st with
  | zero => exact absurd hn (Nat.not_lt_zero _)
  | succ n ih =>
    rw [parse_succ]
    refine Node.step_leads g ctx st hs (fun h st1 h1 hmoved => ?_) fun _ _ _ => ⟨_, rfl⟩
    have hunder := h.keeps_guarded henv hg hctx
    have hlt := h.depth_lt henv hg hctx h1 hmoved
    exact ih hunder.1 hunder.2 h1.1 (by omega)

/-- The node is a rule, by its name or with its body. -/
def Grammar.isRule : Grammar → Bool
  | .rule _ | .define _ _ _ => true
  | _ => false

/-- Grammars without rules. -/
def ruleless : Discipline where
  node g := g.All (·.isRule = false)
  skipper g := g.All (·.isRule = false)
  body _ := False
  child h hq := h.child hq
  skipWith h := h.child List.mem_cons_self
  define h := nomatch h.self
  ofBody h := h.elim

/-- Without rules, none is missing, with any fuel. -/
theorem parse_defined {env : Env} (henv : env.Under ruleless) {n : Nat} {g : Grammar} {ctx : Ctx}
    {st : State} (hg : ruleless.node g) (hctx : ctx.Under ruleless) (hs : st.Sound env.source) :
    (parse env n g ctx st).Meets (Leads env.source (¬ ·.Undefined) g st) := by
  induction n generalizing g ctx st with
  | zero => exact Halt.not_undefined_exhausted st
  | succ n ih =>
    rw [parse_succ]
    refine Node.step_leads g ctx st hs (fun h st1 h1 _ => ?_) fun r hr _ => ?_
    · obtain ⟨hctx', ⟨hq, -⟩ | ⟨hq, -⟩⟩ := h.under henv hg hctx
      · exact ih hq hctx' h1.1
      · exact ih hq hctx' h1.1
    · subst hr
      have hself : (Grammar.rule r).isRule = false := Grammar.All.self hg
      cases hself

/-! ## Programs -/

namespace Program

variable {p : Program}

theorem grammar_size_le (p : Program) : p.grammar.size ≤ p.size := by
  rw [size]
  omega

theorem skipper_size_le {s : Grammar} (hs : p.skipper = some s) : s.size ≤ p.size := by
  rw [size, hs, Option.map_some, Option.getD_some]
  omega

theorem rule_size_le {entry : String × Definition} (h : entry ∈ p.rules) :
    entry.2.body.size ≤ p.size := by
  have hsizes : entry.2.body.size ≤ Grammar.sizes (p.rules.map (·.2.body)) :=
    Grammar.size_le_sizes (List.mem_map.mpr ⟨entry, h, rfl⟩)
  exact Nat.le_trans hsizes (Nat.le_add_left _ _)

theorem Guarded.env_under (hp : p.Guarded) (source : Text) :
    (p.env source).Under (guardedWithin p.size) := by
  intro r d _ hd
  have hmem := p.mem_of_env hd
  have hrule := hp.rules _ hmem
  exact ⟨⟨rule_size_le hmem, hrule.2⟩, hrule.1⟩

theorem Guarded.context_under (hp : p.Guarded) (options : ParseOptions) :
    (p.context options).Under (guardedWithin p.size) :=
  ⟨fun s hs => ⟨skipper_size_le hs, hp.skipper s hs⟩, nofun⟩

/-- The fuel of a run is more than the measure at its start. -/
theorem depth_lt_fuel (p : Program) (options : ParseOptions) (source : Text) (st : State) :
    depth p.size (p.env source) p.grammar (p.context options) st < p.fuel source := by
  have hplace : (p.env source).length - st.offset ≤ Text.byteLength source := Nat.sub_le _ _
  have hgrammar := Grammar.cost_le_of_size p.grammar_size_le
  have hskipper : (p.context options).cost p.size ≤ p.size * (p.size + 2) := by
    rw [Ctx.cost]
    split
    · rename_i s hs
      exact Grammar.cost_le_of_size (skipper_size_le hs)
    · exact Nat.zero_le _
  -- one descent at each place, and one more for the grammar and for the skipper
  have hdescent : p.size * (p.size + 2) + 1 ≤ (p.size + 8) * (2 * p.size + 8) :=
    Nat.succ_le_of_lt (Nat.mul_lt_mul_of_lt_of_le (by omega) (by omega) (by omega))
  calc depth p.size (p.env source) p.grammar (p.context options) st
    _ ≤ Text.byteLength source * (p.size * (p.size + 2) + 1) + p.size * (p.size + 2) +
        p.size * (p.size + 2) :=
      Nat.add_le_add (Nat.add_le_add (Nat.mul_le_mul_right _ hplace) hgrammar) hskipper
    _ ≤ (Text.byteLength source + 2) * (p.size * (p.size + 2) + 1) := by
      rw [Nat.add_mul]
      omega
    _ ≤ (Text.byteLength source + p.size + 8) * ((p.size + 8) * (2 * p.size + 8)) :=
      Nat.mul_le_mul (by omega) hdescent
    _ < p.fuel source := by
      rw [fuel, ← Nat.mul_assoc]
      have hsegment : 0 < stackSegment := by decide
      exact Nat.lt_mul_of_div_lt (Nat.lt_succ_self _) hsegment

theorem Guarded.runWithin_answers (hp : p.Guarded) {n : Nat} {source : Text}
    (hn : p.fuel source ≤ n) (options : ParseOptions) (target : Ty) (slot : Value) :
    Settles (p.runWithin n options target slot source) (fun _ => True) Halt.Undefined := by
  have hg : (guardedWithin p.size).node p.grammar := ⟨p.grammar_size_le, hp.grammar⟩
  have henv := hp.env_under source
  have hctx := hp.context_under options
  have hdepth (st : State) := Nat.lt_of_lt_of_le (p.depth_lt_fuel options source st) hn
  refine (runWithin_onward (parse_answers henv hg hctx (.start source) (hdepth _))
    fun st hs _ _ _ h st1 h1 hmoved => ?_).mono (fun _ _ => trivial) (fun _ hh => hh)
  have hunder := h.keeps_guarded henv hg hctx
  have hlt := h.depth_lt henv hg hctx h1 hmoved
  exact parse_answers henv hunder.1 hunder.2 h1.1 (Nat.lt_trans hlt (hdepth st))

/-- The program has no rules. -/
structure Ruleless (p : Program) : Prop where
  grammar : p.grammar.All (·.isRule = false)
  skipper : ∀ s, p.skipper = some s → s.All (·.isRule = false)
  rules : p.rules = []

theorem Ruleless.guarded (hp : p.Ruleless) : p.Guarded := by
  have hguards (x : Grammar) (hx : x.isRule = false) : x.guardsBody = true := by
    cases x with
    | define => cases hx
    | _ => rfl
  refine ⟨hp.grammar.mono hguards, fun s hs => (hp.skipper s hs).mono hguards, fun entry h => ?_⟩
  rw [hp.rules] at h
  cases h

theorem Ruleless.runWithin_defined (hp : p.Ruleless) (n : Nat) (options : ParseOptions)
    (target : Ty) (slot : Value) (source : Text) :
    Settles (p.runWithin n options target slot source) (fun _ => True) (¬ ·.Undefined) := by
  have henv : (p.env source).Under ruleless := fun r _ hr _ => nomatch (Grammar.All.self hr)
  have hctx : (p.context options).Under ruleless := ⟨hp.skipper, nofun⟩
  refine (runWithin_onward (parse_defined henv hp.grammar hctx (.start source))
    fun st hs _ _ _ h st1 h1 _ => ?_).mono (fun _ _ => trivial) (fun _ hh => hh)
  obtain ⟨hctx', ⟨hq, -⟩ | ⟨hq, -⟩⟩ := h.under henv hp.grammar hctx
  · exact parse_defined henv hq hctx' h1.1
  · exact parse_defined henv hq hctx' h1.1

end Program

/-- A run of a program in which every rule that a body calls stands behind a character comes to an
    answer: a match, a failure, or the halt at a rule without a definition. More fuel than the run
    has would not change it. Without rules the answer is a match or a failure. -/
theorem run_terminates :
    (∀ (p : Program), p.Guarded →
      ∀ (options : ParseOptions) (target : Ty) (slot : Value) (source : Text),
        ((∃ r, p.run options target slot source = .ok r) ∨
          ∃ h, p.run options target slot source = .error h ∧ h.Undefined) ∧
        ∀ n, p.fuel source ≤ n →
          p.runWithin n options target slot source = p.run options target slot source) ∧
    ∀ (p : Program), p.Ruleless →
      ∀ (options : ParseOptions) (target : Ty) (slot : Value) (source : Text),
        ∃ r, p.run options target slot source = .ok r := by
  refine ⟨fun p hp options target slot source => ?_, fun p hp options target slot source => ?_⟩
  · have h := hp.runWithin_answers (Nat.le_refl (p.fuel source)) options target slot
    rw [Program.run]
    refine ⟨?_, fun n hn => ?_⟩
    · cases hr : p.runWithin (p.fuel source) options target slot source with
      | ok r => exact .inl ⟨r, rfl⟩
      | error hlt =>
        rw [hr] at h
        exact .inr ⟨hlt, rfl, h⟩
    · -- more fuel could only do away with a halt for want of it
      have hbelow := p.runWithin_below hn options target slot source
      refine (hbelow.eq_of_not fun hlt hr hspent => ?_).symm
      rw [hr] at h
      obtain ⟨name, hname⟩ := h
      cases hname.symm.trans hspent
  · -- of the answers that are left, a missing rule is none
    have h := hp.guarded.runWithin_answers (Nat.le_refl (p.fuel source)) options target slot
    have hdefined := hp.runWithin_defined (p.fuel source) options target slot source
    rw [Program.run]
    cases hr : p.runWithin (p.fuel source) options target slot source with
    | ok r => exact ⟨r, rfl⟩
    | error hlt =>
      rw [hr] at h hdefined
      exact absurd h hdefined

/-- A rule for parentheses in parentheses. -/
def nestRule : Rule := { name := "nest", ty := .unused }

open Notation in
/-- Parentheses in parentheses, with space between them. -/
def nest : Program :=
  { grammar := call nestRule
    skipper := some (plus space)
    rules := [(nestRule.name, ⟨lit '(' >>> opt (call nestRule) >>> lit ')', false⟩)] }

open Notation in
/-- Loops over parsers that take nothing, and a skipper that takes nothing. -/
def idle : Program :=
  { grammar := kleene (kleene eps) >>> sepBy eps eps
    skipper := some (skipWith (kleene eps) (plus eps)) }

/-- Both programs come to an answer, and more fuel finds the same. -/
theorem run_terminates_nest :
    nest.Guarded ∧ idle.Ruleless ∧
    (∃ r, nest.run {} .unused .unused "( ( ) )".toList = .ok r ∧ r.result.isFull = true ∧
      nest.runWithin 100000 {} .unused .unused "( ( ) )".toList = .ok r) ∧
    ∃ r, idle.run {} .unused .unused "x".toList = .ok r := by
  have hnest : nest.Guarded := by
    refine ⟨by decide, fun s hs => ?_, by decide⟩
    cases hs
    decide
  have hidle : idle.Ruleless := by
    refine ⟨by decide, fun s hs => ?_, rfl⟩
    cases hs
    decide
  have hfuel : nest.fuel "( ( ) )".toList ≤ 100000 := by decide
  have hfull : (nest.run {} .unused .unused "( ( ) )".toList).toOption.any (·.result.isFull) := by
    decide +kernel
  have h := run_terminates.1 nest hnest {} .unused .unused "( ( ) )".toList
  refine ⟨hnest, hidle, ?_, run_terminates.2 idle hidle {} .unused .unused "x".toList⟩
  rw [h.2 100000 hfuel]
  obtain ⟨r, hr⟩ | ⟨hlt, hr, -⟩ := h.1
  · rw [hr] at hfull ⊢
    exact ⟨r, rfl, hfull, rfl⟩
  · rw [hr] at hfull
    cases hfull

end Peg
