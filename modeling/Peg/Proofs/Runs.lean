/-
  Peg.Proofs.Runs

  Which parsers a node runs, and in which contexts. A discipline is what a
  property of whole parses asks of grammars, of skippers and of the bodies of
  rules; what is under a discipline runs only what is under it.
-/
import Peg.Parse.State
import Peg.Proofs.Nodes

namespace Peg

/-! ## What a node runs -/

/-- The grammar is a terminal that takes exactly one character. -/
def Grammar.isCharacter : Grammar → Bool
  | .terminal (.char _) | .terminal (.lit _) => true
  | .group p | .sealed _ p => p.isCharacter
  | _ => false

theorem Grammar.isCharacter_terminal {t : Terminal} (h : (terminal t).isCharacter = true) :
    (∃ c, t = .char c) ∨ ∃ a, t = .lit a := by
  cases t with
  | char c => exact .inl ⟨c, rfl⟩
  | lit a => exact .inr ⟨a, rfl⟩
  | _ => cases h

/-- The contexts have the same skipper, the same injected rules, and both record failures or both
    do not. -/
structure Ctx.Like (ctx' ctx : Ctx) : Prop where
  skipper : ctx'.skipper = ctx.skipper
  tracking : ctx'.tracking = ctx.tracking
  injected : ∀ name, ctx'.chain.injected? name = ctx.chain.injected? name

namespace Ctx.Like

variable (ctx : Ctx)

theorem refl : ctx.Like ctx := ⟨rfl, rfl, fun _ => rfl⟩

theorem skipping (b : Bool) : Like { ctx with skipping := b } ctx := ⟨rfl, rfl, fun _ => rfl⟩

theorem noCase (b : Bool) : Like { ctx with noCase := b } ctx := ⟨rfl, rfl, fun _ => rfl⟩

theorem varTy (t : Option Ty) : Like { ctx with varTy := t } ctx := ⟨rfl, rfl, fun _ => rfl⟩

theorem bind (key : Key) (b : Bound) : (ctx.bind key b).Like ctx := ⟨rfl, rfl, fun _ => rfl⟩

theorem hide (key : Key) : Like { ctx with chain := .hide key :: ctx.chain } ctx :=
  ⟨rfl, rfl, fun _ => rfl⟩

end Ctx.Like

/-- A node in a context runs a parser in another context. The flag tells that a character was
    taken before. -/
inductive Runs (env : Env) : Grammar → Ctx → Bool → Grammar → Ctx → Prop where
  /-- the skipper in force, in a context of its own -/
  | skipper {g : Grammar} {ctx : Ctx} {s : Grammar} (h : ctx.skipper = some s) :
      Runs env g ctx false s Ctx.root
  /-- a part of the node -/
  | part {g q : Grammar} {ctx ctx' : Ctx} (h : q ∈ g.parts) (hctx : ctx'.Like ctx) :
      Runs env g ctx false q ctx'
  /-- a part of a sequence, after the parts before it -/
  | seq (before : List Grammar) (q : Grammar) (after : List Grammar) (ctx : Ctx) :
      Runs env (.seq (before ++ q :: after)) ctx (before.any (·.isCharacter)) q ctx
  /-- the subject, with another skipper in force -/
  | skipWith (s p : Grammar) (ctx : Ctx) :
      Runs env (.skipWith s p) ctx false p { ctx with skipper := some s, skipping := true }
  /-- the body of a rule, injected or out of line -/
  | rule {r : Rule} {d : Definition} {ctx ctx' : Ctx}
      (h : (ctx.chain.injected? r.name).or (env.rules r.name) = some d) (hctx : ctx'.Like ctx) :
      Runs env (.rule r) ctx false d.body ctx'
  /-- the body of a definition, with the rule injected -/
  | define {r : Rule} {force : Bool} {body : Grammar} {ctx ctx' : Ctx}
      (hctx : ctx'.Like (ctx.inject r.name ⟨body, force⟩)) :
      Runs env (.define r force body) ctx false body ctx'

/-! ## Disciplines -/

/-- What is asked of a grammar, of the skippers that it puts in force and of the bodies that it
    injects. A grammar passes it on to all parsers below it. -/
structure Discipline where
  node : Grammar → Prop
  skipper : Grammar → Prop
  body : Grammar → Prop
  child : ∀ {g q : Grammar}, node g → q ∈ g.children → node q
  skipWith : ∀ {s p : Grammar}, node (.skipWith s p) → skipper s
  define : ∀ {r : Rule} {force : Bool} {b : Grammar}, node (.define r force b) → body b
  ofBody : ∀ {b : Grammar}, body b → node b

/-- The skipper in force and the injected rules are under the discipline. -/
structure Ctx.Under (ctx : Ctx) (D : Discipline) : Prop where
  skipper : ∀ s, ctx.skipper = some s → D.skipper s
  injected : ∀ name d, ctx.chain.injected? name = some d → D.body d.body

/-- The rules out of line are under the discipline, if it allows for calls of them. -/
def Env.Under (env : Env) (D : Discipline) : Prop :=
  ∀ (r : Rule) (d : Definition), D.node (.rule r) → env.rules r.name = some d → D.body d.body

/-- Where one rule is defined, all bodies are its body. -/
theorem Grammar.All.of_single {name : String} {d : Definition} (P : Grammar → Prop)
    (h : d.body.All P) (name' : String) (d' : Definition)
    (hd : (if name' = name then some d else none) = some d') : d'.body.All P := by
  split at hd
  · cases hd
    exact h
  · cases hd

/-- Every node is as `P` says, in bodies of rules too, and so that skippers are as `S` says. -/
def Discipline.every (P S : Grammar → Prop)
    (hskipper : ∀ s p, (Grammar.skipWith s p).All P → S s) : Discipline where
  node g := g.All P
  skipper := S
  body g := g.All P
  child h hq := h.child hq
  skipWith h := hskipper _ _ h
  define h := h.child List.mem_cons_self
  ofBody h := h

variable {D : Discipline}

theorem Ctx.root_under : Ctx.root.Under D := ⟨nofun, nofun⟩

theorem Ctx.Under.like {ctx ctx' : Ctx} (h : ctx.Under D) (hctx : ctx'.Like ctx) : ctx'.Under D :=
  ⟨fun s hs => h.skipper s (hctx.skipper ▸ hs),
    fun name d hd => h.injected name d (hctx.injected name ▸ hd)⟩

theorem Ctx.Under.inject {ctx : Ctx} (h : ctx.Under D) {name : String} {d : Definition}
    (hd : D.body d.body) : (ctx.inject name d).Under D := by
  refine ⟨h.skipper, fun name' d' hd' => ?_⟩
  rw [Ctx.inject, Chain.injected?] at hd'
  split at hd'
  · cases hd'
    exact hd
  · exact h.injected name' d' hd'

/-- The body that a rule's name stands for is under the discipline. -/
theorem Ctx.Under.body {ctx : Ctx} {env : Env} {r : Rule} {d : Definition} (h : ctx.Under D)
    (henv : env.Under D) (hr : D.node (.rule r))
    (hd : (ctx.chain.injected? r.name).or (env.rules r.name) = some d) : D.body d.body := by
  obtain hd | ⟨-, hd⟩ := Option.or_eq_some_iff.mp hd
  · exact h.injected _ _ hd
  · exact henv r d hr hd

/-- What a node under a discipline runs is under it, apart from the skipper in force, which is
    under the discipline for skippers. -/
theorem Runs.under {env : Env} {g q : Grammar} {ctx ctx' : Ctx} {moved : Bool}
    (h : Runs env g ctx moved q ctx') (henv : env.Under D) (hg : D.node g) (hctx : ctx.Under D) :
    ctx'.Under D ∧ (D.node q ∧ ctx'.tracking = ctx.tracking ∨ D.skipper q ∧ ctx' = Ctx.root) := by
  cases h with
  | skipper hs => exact ⟨Ctx.root_under, .inr ⟨hctx.skipper _ hs, rfl⟩⟩
  | part hq hlike =>
    exact ⟨hctx.like hlike, .inl ⟨D.child hg (Grammar.children_of_parts hq), hlike.tracking⟩⟩
  | seq before q after =>
    exact ⟨hctx, .inl ⟨D.child hg (List.mem_append_right _ List.mem_cons_self), rfl⟩⟩
  | skipWith s =>
    refine ⟨⟨fun s' hs' => ?_, hctx.injected⟩, .inl ⟨D.child hg (by simp [Grammar.children]), rfl⟩⟩
    cases hs'
    exact D.skipWith hg
  | rule hd hlike =>
    exact ⟨hctx.like hlike, .inl ⟨D.ofBody (hctx.body henv hg hd), hlike.tracking⟩⟩
  | define hlike =>
    exact ⟨(hctx.inject (D.define hg)).like hlike,
      .inl ⟨D.child hg List.mem_cons_self, hlike.tracking⟩⟩

end Peg
