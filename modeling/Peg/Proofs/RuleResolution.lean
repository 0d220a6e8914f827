/-
  Peg.Proofs.RuleResolution

  A rule that is defined where it is used and a rule that is defined out of line
  are the same parser under two names. One looks its body up in the chain of the
  context, at every depth of the recursion with whatever was bound, hidden or put
  in force on the way; the other one in the table of the environment. Only the
  names of rules, which show in the journal and in what a failure was expecting,
  tell them apart.
-/
import Mathlib.Data.List.Basic
import Peg.Grammar.Notation
import Peg.Proofs.Lockstep

namespace Peg

/-! ## Up to names -/

/-- The states are the same but for the journal and what the failure on record was expecting. -/
structure State.UpToNames (st u : State) : Prop where
  position : u.failure.map (·.position) = st.failure.map (·.position)
  rest : u = { st with failure := u.failure, journal := u.journal }

/-- The outcomes are the same but for names of rules. -/
def Outcome.UpToNames : Outcome → Outcome → Prop
  | .matched v st, .matched w u => w = v ∧ st.UpToNames u
  | .failed st, .failed u => st.UpToNames u
  | .stopped h, .stopped h' => h'.why = h.why ∧ h.state.UpToNames h'.state
  | _, _ => False

/-- Failures are on record at the same place. -/
def Tie.places : Tie :=
  ⟨fun failure failure' => failure'.map (·.position) = failure.map (·.position), fun _ => True,
    fun _ => True⟩

theorem Tie.places_same {st u : State} (h : Tie.places.Same st u) : st.UpToNames u := by
  obtain ⟨failure, journal, h⟩ := h
  exact ⟨h, rfl⟩

theorem Tie.places_refl (st : State) : Tie.places.Same st st := .intro st.failure st.journal rfl

/-- Where the failures on record are at the same place, both parses have one or neither has. -/
theorem Tie.places_isSome {st u : State} (h : Tie.places.Same st u) :
    u.failure.isSome = st.failure.isSome := by
  have hsome := congrArg Option.isSome (Tie.places_same h).position
  rwa [Option.isSome_map, Option.isSome_map] at hsome

/-- Parsers that simulate each other up to names end so. -/
theorem Tie.Simulates.upToNames {p p' : Step} (h : Tie.places.Simulates p p') (st : State) :
    (p st).UpToNames (p' st) := by
  have hp := h st
  cases ho : p st with
  | matched v st1 =>
    rw [ho] at hp
    obtain ⟨u, hu, hsame⟩ := (hp trivial).2 st (Tie.places_refl st)
    rw [hu]
    exact ⟨rfl, Tie.places_same hsame⟩
  | failed st1 =>
    rw [ho] at hp
    obtain ⟨u, hu, hsame⟩ := (hp trivial).2 st (Tie.places_refl st)
    rw [hu]
    exact Tie.places_same hsame
  | stopped hlt =>
    rw [ho] at hp
    obtain ⟨u, hu, hsame⟩ := (hp trivial trivial).2 st (Tie.places_refl st)
    rw [hu]
    exact ⟨rfl, Tie.places_same hsame⟩

/-- The place that a record leaves depends on the places alone. -/
theorem Failure.record_position {stored stored' : Option Failure} {f f' : Failure}
    (h : stored'.map (·.position) = stored.map (·.position)) (hf : f'.position = f.position) :
    (record stored' f').map (·.position) = (record stored f).map (·.position) := by
  cases stored with
  | none =>
    cases stored' with
    | none => simpa [record, shadowed] using hf
    | some g' => cases h
  | some g =>
    cases stored' with
    | none => cases h
    | some g' =>
      have hg : g'.position = g.position := Option.some.inj h
      by_cases hlt : f.position < g.position <;> simp [record, shadowed, hg, hf, hlt]

/-! ## Rules that call themselves only -/

namespace Grammar

/-- The node is no rule, by name or with its body. -/
def isRuleFree : Grammar → Bool
  | .rule _ | .define _ _ _ => false
  | _ => true

/-- The node calls no rule but `r`, defines none, and puts no skipper in force that would call
    one. -/
def CallsOnly (r : Rule) : Grammar → Prop
  | .rule s => s = r
  | .define _ _ _ => False
  | .skipWith s _ => s.All (·.isRuleFree = true)
  | _ => True

/-- No other rule is called or defined. -/
theorem rule_eq {r s : Rule} (h : (rule s).All (CallsOnly r) ∨
    ∃ force b, (define s force b).All (CallsOnly r)) : s = r := by
  obtain h | ⟨force, b, h⟩ := h
  · exact h.self
  · exact h.self.elim

/-- A grammar without rules has no names to replace. -/
theorem rename_of_isRuleFree (f : String → String) {g : Grammar}
    (h : g.All (·.isRuleFree = true)) : g.rename f = g := by
  refine rename_of_kept g (h.mono fun x hx => ?_)
  cases x <;> trivial

end Grammar

/-- What the name of a rule stands for in a context. -/
def Ctx.resolve (ctx : Ctx) (env : Env) (name : String) : Option Definition :=
  (ctx.chain.injected? name).or (env.rules name)

/-- A rule without a hook for failures does the same under both names. -/
theorem Node.missRule_keeps {env : Env} {c c' : Ctx} {r : Rule} (halike : c.Alike c')
    (ht : c'.tracking = c.tracking) (hr : r.onError = FailureHook.none) (f : String → String)
    (start : Nat) :
    Tie.places.Keeps (missRule env c r start) (missRule env c' (r.rename f) start) := by
  refine ⟨fun _ _ => trivial, fun {st u} hu => ?_⟩
  have hplace := (Tie.places_same hu).position
  unfold missRule
  rw [ht]
  cases c.tracking with
  | false => exact hu
  | true =>
    cases hst : st.failure with
    | none =>
      cases hu' : u.failure with
      | none => exact hu
      | some f' =>
        rw [hst, hu'] at hplace
        cases hplace
    | some f0 =>
      cases hu' : u.failure with
      | none =>
        rw [hst, hu'] at hplace
        cases hplace
      | some f' =>
        rw [hst, hu'] at hplace
        have hposition : f'.position = f0.position := Option.some.inj hplace
        simp only [hposition, Rule.rename_onError, hr]
        -- the hook does nothing, and what is in sight is stored as it was
        exact (perform_same halike.inSight Action.none _ _ _
          ((Tie.Keeps.mark (fun _ => _) fun _ => _).same hu)).2

/-- The contexts agree, `r` is defined in the one, and its other name stands for the same in the
    other. -/
structure Ctx.Resolves (env : Env) (r : Rule) (name : String) (d d' : Definition) (c c' : Ctx) :
    Prop where
  alike : c.Alike c'
  tracking : c'.tracking = c.tracking
  injected : c.chain.injected? r.name = some d
  resolved : c'.resolve env name = some d'

namespace Ctx.Resolves

variable {env : Env} {r s : Rule} {name : String} {d d' : Definition} {c c' : Ctx}

theorem like {c1 c1' : Ctx} (h : Resolves env r name d d' c c') (h1 : c1.Like c)
    (h1' : c1'.Like c') (halike : c1.Alike c1') : Resolves env r name d d' c1 c1' where
  alike := halike
  tracking := by rw [h1'.tracking, h1.tracking, h.tracking]
  injected := (h1.injected _).trans h.injected
  resolved := by
    rw [resolve, h1'.injected]
    exact h.resolved

theorem pending (h : Resolves env r name d d' c c') : Node.PendingAlike .places c c' := by
  intro st u hu
  rw [State.pending, State.pending, h.tracking, Tie.places_isSome hu]

theorem skipWith {s p : Grammar} (hg : (Grammar.skipWith s p).All (Grammar.CallsOnly r))
    (h : Resolves env r name d d' c c') : Resolves env r name d d'
      { c with skipper := some s, skipping := true }
      { c' with skipper := some (s.rename fun _ => name), skipping := true } where
  alike :=
    { h.alike with
      skipper := by rw [Grammar.rename_of_isRuleFree _ hg.self]
      skipping := rfl }
  tracking := h.tracking
  injected := h.injected
  resolved := h.resolved

/-- In both contexts the rule that is called has its definition. -/
theorem found (hg : (Grammar.rule s).All (Grammar.CallsOnly r))
    (h : Resolves env r name d d' c c') :
    (c.chain.injected? s.name).or (env.rules s.name) = some d := by
  rw [show s = r from hg.self, h.injected]
  rfl

end Ctx.Resolves

/-- A rule by its name, and the same rule by another name. -/
def Lockstep.resolution (env : Env) (r : Rule) (name : String) (d d' : Definition)
    (hb : d.body.All (Grammar.CallsOnly r)) (hr : r.onError = FailureHook.none)
    (hd : d.Renamed (fun _ => name) r d') : Lockstep env (fun _ => name) .places where
  node g := g.All (Grammar.CallsOnly r)
  ctx := Ctx.Resolves env r name d d'
  child h hq := h.child hq
  alike h := h.alike
  pending h := h.pending
  like h := h.like
  skipWith hg h := h.skipWith hg
  define hg _ := hg.self.elim
  rule hg h hfound := by
    cases (h.found hg).symm.trans hfound
    exact ⟨d', h.resolved, (show _ = r from hg.self) ▸ hd⟩
  undefined hg h hnone := absurd ((h.found hg).symm.trans hnone) (Option.some_ne_none d)
  body hg h hfound := Option.some.inj ((h.found hg).symm.trans hfound) ▸ hb
  miss start hg h := Node.missRule_keeps h.alike h.tracking (Grammar.rule_eq hg ▸ hr) _ start

section Resolution

variable {env : Env} {r : Rule} {name : String} {d d' : Definition}
  (hb : d.body.All (Grammar.CallsOnly r)) (hr : r.onError = FailureHook.none)
  (hd : d.Renamed (fun _ => name) r d')

/-- A commit point misses at the same place. -/
theorem Node.expect_simulates {n : Nat} {c c' : Ctx} {p p' : Grammar} (halike : c.Alike c')
    (ht : c'.tracking = c.tracking)
    (hp : Tie.places.Simulates (parse env n p c) (parse env n p' c')) :
    Tie.places.Simulates (expect env (parse env n) c p) (expect env (parse env n) c' p') := by
  have hskip : Tie.places.Leads (skipOver env (parse env n) c) (skipOver env (parse env n) c') :=
    skipOver_leads halike fun s => parse_untracked _ env n s (.refl _) rfl rfl
  refine .cases hp (fun _ _ => .yields _ .id) (fun _ => ?_) fun _ _ _ => ⟨rfl, rfl⟩
  refine .ite ?_ (.failed .id) fun _ _ _ => by rw [ht]
  refine hskip.afterSkip (fun st => .failed ⟨fun _ _ => trivial, fun {st1 u1} hu => ?_⟩) ?_
  · obtain ⟨failure, journal, h⟩ := hu
    exact .intro _ _ (Failure.record_position h rfl)
  · rintro st _ ⟨failure, journal, -⟩
    rfl

include hb hr hd

theorem parse_resolution (n : Nat) (g : Grammar) {c c' : Ctx} (hg : g.All (Grammar.CallsOnly r))
    (hc : Ctx.Resolves env r name d d' c c') :
    Tie.places.Simulates (parse env n g c) (parse env n (g.rename fun _ => name) c') := by
  induction n generalizing g c c' with
  | zero => exact .stopped .exhausted
  | succ n ih =>
    rw [parse_eq_step, parse_eq_step]
    refine Node.step_simulates (Lockstep.resolution env r name d d' hb hr hd) _ _
      (fun q c c' hq hc => ih q hq hc) (fun c c' hc => ?_) hg hc fun p hp => ?_
    · exact Node.skipOver_leads hc.alike fun s => parse_untracked _ env n s (.refl _) rfl rfl
    · subst hp
      exact Node.expect_simulates hc.alike hc.tracking (ih p (hg.child List.mem_cons_self) hc)

end Resolution

/-- The two ways to resolve a rule agree. Let the body `b` call no rule but `r`, and none in the
    skippers that it puts in force, and let `name` stand for that body with `r` called by this name,
    with the same flag, or with any flag if the rule takes the value of its body whatever the flag
    is. Then the definition of `r` with its body and the rule by its other name end alike: both
    match with the same value, or both fail, or both halt, and in the same state but for names of
    rules. -/
theorem resolution_agrees (env : Env) (r : Rule) (name : String) (force force' : Bool)
    (b : Grammar) (hb : b.All (Grammar.CallsOnly r)) (hr : r.onError = FailureHook.none)
    (hforce : force' = force ∨ r.forced = true ∨ b.hasAction = false) (n : Nat) (ctx : Ctx)
    (hname : ctx.resolve env name = some ⟨b.rename fun _ => name, force'⟩) (st : State) :
    (parse env n (.define r force b) ctx st).UpToNames
      (parse env n (.rule { r with name := name }) ctx st) := by
  suffices h : Tie.places.Simulates (parse env n (.define r force b) ctx)
      (parse env n (.rule { r with name := name }) ctx) from h.upToNames st
  cases n with
  | zero => exact .stopped .exhausted
  | succ n =>
    have hd : Definition.Renamed (fun _ => name) r ⟨b, force⟩ ⟨b.rename fun _ => name, force'⟩ :=
      .of_flags b hforce
    have hctx (t : Option Ty) : Ctx.Resolves env r name ⟨b, force⟩ ⟨b.rename fun _ => name, force'⟩
        { ctx.outsideRules.inject r.name ⟨b, force⟩ with varTy := t }
        { ctx.outsideRules with varTy := t } :=
      ⟨⟨rfl, rfl, rfl, rfl, rfl⟩, rfl, if_pos rfl, hname⟩
    rw [parse_eq_step, parse_eq_step]
    intro st
    have hcall : Tie.places.Simulates
        (Node.call env (parse env n) r ⟨b, force⟩ (ctx.outsideRules.inject r.name ⟨b, force⟩))
        (Node.call env (parse env n) { r with name := name } ⟨b.rename fun _ => name, force'⟩
          ctx.outsideRules) :=
      Node.call_simulates (hctx none).alike.inSight hd
        (Node.skipOver_leads (hctx none).alike
          fun s => parse_untracked _ env n s (.refl _) rfl rfl)
        (parse_resolution (d := ⟨b, force⟩) hb hr hd n b hb (hctx (some r.ty)))
        fun start => Node.missRule_keeps (hctx none).alike rfl hr (fun _ => name) start
    refine Tie.Simulates.congr (hcall st) fun u _ => ?_
    rw [Ctx.resolve] at hname
    simp only [Node.step, Node.rule, hname]

/-- A rule that calls itself. -/
def ownRule : Rule := { name := "own", ty := .char }

open Notation in
/-- A letter in any number of brackets, with a value bound inside each of them. -/
def ownBody : Grammar :=
  orElse (lit '(' >>> withValue "depth" 1 (call ownRule) >>> expect ')') (char 'x')

/-- The same rule out of line, by another name. -/
def otherEnv (source : Text) : Env :=
  .of source fun name =>
    if name = "other" then some ⟨ownBody.rename fun _ => "other", false⟩ else none

theorem ownBody_callsOnly : ownBody.All (Grammar.CallsOnly ownRule) := by
  refine List.forall_iff_forall_mem.mp ?_
  exact ⟨trivial, trivial, trivial, trivial, rfl, trivial, trivial, trivial⟩

/-- Under both names a letter in brackets is taken, also where one of them is forced to, and under
    both names the missing bracket is noticed at the end of the text. -/
theorem resolution_agrees_brackets :
    (∃ v st u,
      parse (otherEnv "(x)".toList) 8 (.define ownRule true ownBody) {}
        { cursor := .start "(x)".toList } = .matched v st ∧ st.offset = 3 ∧
      parse (otherEnv "(x)".toList) 8 (.rule { ownRule with name := "other" }) {}
        { cursor := .start "(x)".toList } = .matched v u ∧ st.UpToNames u) ∧
    ∃ st u,
      parse (otherEnv "(x".toList) 8 (.define ownRule false ownBody) { tracking := true }
        { cursor := .start "(x".toList } = .failed st ∧
      parse (otherEnv "(x".toList) 8 (.rule { ownRule with name := "other" })
        { tracking := true } { cursor := .start "(x".toList } = .failed u ∧
      u.failure = some ⟨2, "')'"⟩ ∧ st.UpToNames u := by
  have hmatch := resolution_agrees (otherEnv "(x)".toList) ownRule "other" true false ownBody
    ownBody_callsOnly rfl (.inr (.inr rfl)) 8 {} rfl { cursor := .start "(x)".toList }
  have hmiss := resolution_agrees (otherEnv "(x".toList) ownRule "other" false false ownBody
    ownBody_callsOnly rfl (.inl rfl) 8 { tracking := true } rfl { cursor := .start "(x".toList }
  exact ⟨⟨_, _, _, rfl, rfl, rfl, hmatch.2⟩, ⟨_, _, rfl, rfl, rfl, hmiss⟩⟩

end Peg
