/-
  Peg.Proofs.Regimes

  A regime is what two parallel parses have to agree on: the nodes that they meet,
  the contexts that they meet them in, and that a terminal takes equally many
  bytes in both texts. Under a regime every node ends alike in the two parses if
  the parsers that it runs do, and skipping does. Actions and hooks see the text
  and the values, so that nodes with actions and rules with hooks are left to
  parses that have both in common.
-/
import Peg.Proofs.Boundary
import Peg.Proofs.Parallel

namespace Peg

open Text

/-- The rule has no hook. -/
structure Rule.Hookless (r : Rule) : Prop where
  success : r.onSuccess = none
  error : r.onError = FailureHook.none

/-- The contexts are the same but for the skipper and whether it is switched on. -/
structure Ctx.Abreast (c c' : Ctx) : Prop where
  noCase : c'.noCase = c.noCase
  tracking : c'.tracking = c.tracking
  chain : c'.chain = c.chain
  varTy : c'.varTy = c.varTy

theorem Ctx.Abreast.symm {c c' : Ctx} (h : c.Abreast c') : c'.Abreast c :=
  ⟨h.noCase.symm, h.tracking.symm, h.chain.symm, h.varTy.symm⟩

namespace Parallel

/-- Both parses have the same text and come to the same values. -/
structure Identical (P : Parallel) : Prop where
  env_eq : P.env' = P.env
  shift_eq : P.shift = 0
  same : P.sameValues

/-- What a node may be for two parallel parses: actions and hooks only where both parses show them
    the same. -/
def Allows (P : Parallel) : Grammar → Prop
  | .action _ _ => P.Identical
  | .narrow _ _ _ => P.sameValues
  | .rule r | .define r _ _ => P.Identical ∨ r.Hookless
  | _ => True

/-- Everything is allowed where both parses show the same. -/
theorem Identical.allows {P : Parallel} (hI : P.Identical) (g : Grammar) : P.Allows g := by
  cases g with
  | action p f => exact hI
  | narrow t f p => exact hI.same
  | rule r => exact .inl hI
  | define r force body => exact .inl hI
  | _ => trivial

variable {P : Parallel} {st u : State} {c c' : Ctx}

/-! ## Hooks -/

/-- The states are beside each other if they are the same but for what may differ. -/
theorem Beside.of_eq (hc : P.At st.cursor u.cursor) (hv : P.Values st.ruleVar u.ruleVar)
    (h : u = { st with cursor := u.cursor, ruleVar := u.ruleVar, journal := u.journal,
                       failure := st.failure.map (·.later P.shift) }) : P.Beside st u := by
  rw [h]
  exact .intro u.cursor u.ruleVar u.journal hc hv

/-- Nothing is any later without a shift. -/
theorem Identical.later_eq (hI : P.Identical) (f : Option Failure) :
    f.map (·.later P.shift) = f := by
  rw [hI.shift_eq]
  cases f <;> rfl

/-- With the same text and values, states beside each other differ in the journal at most. -/
theorem Identical.eq_of_beside (hI : P.Identical) (h : P.Beside st u) :
    u = { st with journal := u.journal } := by
  obtain ⟨cursor, ruleVar, journal, hc, hv⟩ := h
  have hoffset : cursor.offset = st.cursor.offset := by rw [hc.offset, hI.shift_eq, Nat.add_zero]
  have hcursor : cursor = st.cursor := by
    rw [← show Cursor.mk cursor.offset cursor.rest = cursor from rfl, hoffset,
      hc.rest_eq hI.same]
  rw [hI.later_eq, hcursor, hv hI.same]

/-- Equal failures on record. -/
def equalFailures : Tie := ⟨fun f f' => f' = f, fun _ => True, fun _ => True⟩

theorem equalFailures_same (h : equalFailures.Same st u) :
    u = { st with journal := u.journal } := by
  obtain ⟨failure, journal, hf⟩ := h
  obtain rfl : failure = st.failure := hf
  rfl

/-- A hook does the same in both parses. -/
theorem Identical.perform_beside (hI : P.Identical) (hchain : c'.chain = c.chain) (f : Action)
    (span : Span) (varTy : Option Ty) (v : Value) (h : P.Beside st u) :
    (Node.perform P.env' c' f span varTy v u).1 = (Node.perform P.env c f span varTy v st).1 ∧
      P.Beside (Node.perform P.env c f span varTy v st).2
        (Node.perform P.env' c' f span varTy v u).2 := by
  have hu : u = { st with journal := u.journal } := hI.eq_of_beside h
  have htied : equalFailures.Same st u := by
    rw [hu]
    exact .intro st.failure _ rfl
  have hsight : c'.chain.inSight = c.chain.inSight := by rw [hchain]
  rw [hI.env_eq]
  obtain ⟨heffect, hafter⟩ : (Node.perform P.env c' f span varTy v u).1 =
        (Node.perform P.env c f span varTy v st).1 ∧
      equalFailures.Same (Node.perform P.env c f span varTy v st).2
        (Node.perform P.env c' f span varTy v u).2 :=
    Node.perform_same hsight f span varTy v htied
  have hrest := equalFailures_same hafter
  refine ⟨heffect, .of_eq ?_ (fun _ => ?_) ?_⟩
  · rw [Node.perform_cursor, Node.perform_cursor]
    exact h.cursor
  · rw [hrest]
  · rw [hI.later_eq, hrest]

theorem Beside.storeOne (h : P.Beside st u) (bound : List (Key × Value)) (entry : Key × Bound) :
    P.Beside (State.storeOne bound st entry) (State.storeOne bound u entry) := by
  obtain ⟨cursor, ruleVar, journal, hc, hv⟩ := h
  unfold State.storeOne
  split
  · rename_i ref _ _ _
    cases ref <;> exact .intro cursor ruleVar journal hc hv
  · exact .intro cursor ruleVar journal hc hv

/-- Reading and storing values in sight does not look at what may differ. -/
theorem Beside.store (h : P.Beside st u) (ctx : Ctx) :
    P.Beside (st.store ctx (st.values ctx)) (u.store ctx (u.values ctx)) := by
  have hvalues : u.values ctx = st.values ctx := by
    obtain ⟨cursor, ruleVar, journal, hc, hv⟩ := h
    rfl
  rw [hvalues]
  clear hvalues
  generalize st.values ctx = bound
  simp only [State.store]
  -- one cell after the other
  induction ctx.chain.inSight generalizing st u with
  | nil => exact h
  | cons entry entries ih =>
    rw [List.foldl_cons, List.foldl_cons]
    exact ih (h.storeOne bound entry)

end Parallel

namespace Node

open Parallel (At Values Beside Ends Settle Simulates Leads Identical)

variable {P : Parallel} {c c' : Ctx} {p p' q q' : Step} {rec rec' : Grammar → Ctx → Step}

/-- The action that does nothing stores the values that are there already. -/
theorem perform_none (env : Env) (ctx : Ctx) (span : Span) (varTy : Option Ty) (v : Value)
    (st : State) :
    (perform env ctx Action.none span varTy v st).2 = st.store ctx (st.values ctx) := by
  simp only [perform, Action.none, List.nil_append]
  rw [State.store_eq]
  simp only [ite_self]

/-- What a rule does about a failure. -/
theorem missRule_beside {r : Rule} (hr : P.Identical ∨ r.Hookless) (h : c.Abreast c')
    {start start' : Nat} (hstart : start' = start + P.shift) {st u : State}
    (hst : P.Beside st u) :
    P.Beside (missRule P.env c r start st) (missRule P.env' c' r start' u) := by
  unfold missRule
  rw [h.tracking, hst.failure]
  cases c.tracking with
  | false => exact hst
  | true =>
    cases hf : st.failure with
    | none => exact hst
    | some f =>
      simp only [Option.map_some]
      have hmark := hst.mark (.reported r.name ⟨start, max f.position start⟩)
        (.reported r.name ⟨start', max (f.later P.shift).position start'⟩)
      obtain hI | hr := hr
      · have hlater : f.later P.shift = f := by rw [hI.shift_eq]; rfl
        have hsame : start' = start := by rw [hstart, hI.shift_eq, Nat.add_zero]
        rw [hlater, hsame] at hmark ⊢
        exact (hI.perform_beside h.chain _ _ _ _ hmark).2
      · -- without a hook only the incident is put down
        rw [hr.error]
        simp only [FailureHook.none]
        rw [perform_none, perform_none]
        have hstore : ∀ w : State, w.store c' (w.values c') = w.store c (w.values c) := by
          intro w
          simp only [State.store, State.values, h.chain]
        rw [hstore]
        exact hmark.store c

/-! ## Nodes -/

theorem skipOver_leads_of_eq (hskipper : c'.skipper = c.skipper)
    (hskipping : c'.skipping = c.skipping)
    (h : ∀ s, c.skipper = some s → P.Simulates (rec s Ctx.root) (rec' s Ctx.root)) :
    P.Leads (skipOver P.env rec c) (skipOver P.env' rec' c') := by
  intro st u hst
  unfold skipOver
  rw [hskipper, hskipping]
  cases c.skipping with
  | false => exact .ok hst
  | true =>
    cases hs : c.skipper with
    | none => exact .ok hst
    | some s =>
      simp only [hst.rounds_eq]
      exact skipLoop_settle (h s hs) _ st u hst

theorem takeTerminal_ends {t : Terminal} {b b' : Bool} (hb : b' = b)
    (hscan : ∀ rest rest', List.Forall₂ P.chars rest rest' →
      (t.scan b' rest').map Prod.fst = (t.scan b rest).map Prod.fst)
    {start start' : Cursor} (hstart : P.At start start') {st u : State} (h : P.Beside st u) :
    P.Ends (takeTerminal t b start st) (takeTerminal t b' start' u) := by
  have hlen := hscan _ _ h.cursor.rest
  rw [takeTerminal, takeTerminal]
  cases hs : t.scan b st.cursor.rest with
  | none =>
    rw [hs, Option.map_none, Option.map_eq_none_iff] at hlen
    rw [hlen]
    exact .failed (h.moveTo hstart)
  | some r =>
    obtain ⟨n, v⟩ := r
    rw [hs, Option.map_some, Option.map_eq_some_iff] at hlen
    obtain ⟨⟨n', w⟩, hw, hn⟩ := hlen
    obtain rfl : n' = n := hn
    obtain ⟨d, d', hd, hd', hmove⟩ := h.cursor.advance (Terminal.scan_isBoundary hs)
    simp only [hw, hd, hd']
    refine .matched (fun hsame => ?_) (h.moveTo hmove)
    rw [h.cursor.rest_eq hsame, hb, hs] at hw
    cases hw
    rfl

theorem alt_ends (ht : c'.tracking = c.tracking) (hp : P.Simulates p p') (hq : P.Simulates q q')
    (l r : Ty) (st u : State) (h : P.Beside st u) :
    P.Ends (alt c l r p q st) (alt c' l r p' q' u) := by
  apply (hp st u h).cases
  · intro v w st1 u1 hv h1
    exact .matched (hv.map _) h1
  · intro st1 u1 h1
    rw [h1.pending ht]
    split
    · exact .failed h1
    · exact (hq st1 u1 h1).map (Value.alternativeRight l r)

theorem opt_ends (ht : c'.tracking = c.tracking) (hp : P.Simulates p p') (t : Ty) (st u : State)
    (h : P.Beside st u) : P.Ends (opt c t p st) (opt c' t p' u) := by
  apply (hp st u h).cases
  · intro v w st1 u1 hv h1
    exact .matched (hv.map _) h1
  · intro st1 u1 h1
    rw [h1.pending ht]
    split
    · exact .failed h1
    · exact .matched (Values.refl _) h1

theorem diff_ends (hp : P.Simulates p p') (hq : P.Simulates q q') (st u : State)
    (h : P.Beside st u) : P.Ends (diff p q st) (diff p' q' u) := by
  apply (hq st u h).cases
  · intro v w st1 u1 _ h1
    exact .failed (h1.moveTo h.cursor)
  · exact hp

theorem ahead_ends (wanted : Bool) (hp : P.Simulates p p') (st u : State) (h : P.Beside st u) :
    P.Ends (ahead wanted p st) (ahead wanted p' u) := by
  apply (hp st u h).cases
  · intro v w st1 u1 _ h1
    cases wanted
    · exact .failed (h1.moveTo h.cursor)
    · exact .matched (Values.refl _) (h1.moveTo h.cursor)
  · intro st1 u1 h1
    cases wanted
    · exact .matched (Values.refl _) (h1.moveTo h.cursor)
    · exact .failed (h1.moveTo h.cursor)

/-- A commit point. Its failure is so many bytes later in the second parse. -/
theorem expect_ends (ht : c'.tracking = c.tracking)
    (hskip : P.Leads (skipOver P.env rec c) (skipOver P.env' rec' c')) {g : Grammar}
    (hp : P.Simulates (rec g c) (rec' g c')) (st u : State) (h : P.Beside st u) :
    P.Ends (expect P.env rec c g st) (expect P.env' rec' c' g u) := by
  apply (hp st u h).cases
  · intro v w st1 u1 hv h1
    exact .matched hv h1
  · intro st1 u1 h1
    rw [ht]
    split
    · apply (hskip st1 u1 h1).afterSkip
      intro st2 u2 h2
      exact .failed ((h2.record g.what).moveTo h1.cursor)
    · exact .failed h1

theorem raw_ends (hskip : P.Leads (skipOver P.env rec c) (skipOver P.env' rec' c'))
    (hp : P.Simulates p p') (st u : State) (h : P.Beside st u) :
    P.Ends (raw P.env rec c p st) (raw P.env' rec' c' p' u) := by
  apply (hskip st u h).afterSkip
  intro st1 u1 h1
  apply (hp st1 u1 h1).cases
  · intro v w st2 u2 _ h2
    -- as many bytes of the same text
    refine .matched (fun hsame => ?_) h2
    rw [h1.taken_eq h2, h1.cursor.rest_eq hsame]
  · intro st2 u2 h2
    exact .failed (h2.moveTo h.cursor)

theorem lexeme_ends (hskip : P.Leads (skipOver P.env rec c) (skipOver P.env' rec' c'))
    (hp : P.Simulates p p') (st u : State) (h : P.Beside st u) :
    P.Ends (lexeme P.env rec c p st) (lexeme P.env' rec' c' p' u) := by
  apply (hskip st u h).afterSkip
  intro st1 u1 h1
  apply (hp st1 u1 h1).cases
  · intro v w st2 u2 hv h2
    exact .matched hv h2
  · intro st2 u2 h2
    exact .failed (h2.moveTo h.cursor)

theorem flag_ends (hp : P.Simulates p p') (st u : State) (h : P.Beside st u) :
    P.Ends (flag p st) (flag p' u) := by
  apply (hp st u h).cases
  · intro v w st1 u1 _ h1
    exact .matched (Values.refl _) h1
  · intro st1 u1 h1
    exact .matched (Values.refl _) h1

/-- Whether a value can be narrowed hangs on the value, so that the values must be the same. -/
theorem narrow_ends (hsame : P.sameValues) (f : Value → Option Value) (hp : P.Simulates p p')
    (st u : State) (h : P.Beside st u) : P.Ends (narrow f p st) (narrow f p' u) := by
  apply (hp st u h).cases
  · intro v w st1 u1 hv h1
    obtain rfl : w = v := hv hsame
    cases f w with
    | some x => exact .matched (Values.refl _) h1
    | none => exact .failed (h1.moveTo h.cursor)
  · intro st1 u1 h1
    exact .failed h1

theorem action_ends (hI : P.Identical) (hctx : c.Abreast c')
    (hskip : P.Leads (skipOver P.env rec c) (skipOver P.env' rec' c')) (hp : P.Simulates p p')
    (f : Action) (st u : State) (h : P.Beside st u) :
    P.Ends (action P.env rec c f p st) (action P.env' rec' c' f p' u) := by
  apply (hskip st u h).afterSkip
  intro st1 u1 h1
  apply (hp st1 u1 h1).cases
  · intro v w st2 u2 hv h2
    have ho1 : u1.offset = st1.offset := by rw [h1.offset, hI.shift_eq, Nat.add_zero]
    have ho2 : u2.offset = st2.offset := by rw [h2.offset, hI.shift_eq, Nat.add_zero]
    obtain ⟨heffect, hafter⟩ := hI.perform_beside hctx.chain f ⟨st1.offset, st2.offset⟩ c.varTy v
      (h2.mark (.acted ⟨st1.offset, st2.offset⟩) (.acted ⟨st1.offset, st2.offset⟩))
    simp only [ho1, ho2, hctx.varTy, hv hI.same, heffect]
    split
    · exact .matched (Values.refl _) hafter
    · exact .failed (hafter.moveTo h.cursor)
  · intro st2 u2 h2
    exact .failed (h2.moveTo h.cursor)

/-- What a rule does after its body matched. -/
theorem matchRule_ends {r : Rule} (hr : P.Identical ∨ r.Hookless) (hctx : c.Abreast c')
    (d : Definition) {st u : State} (h : P.Beside st u) {start start' : Nat}
    (hstart : start' = start + P.shift) {v w : Value} (hv : P.Values v w) {st2 u2 : State}
    (h2 : P.Beside st2 u2) :
    P.Ends (matchRule P.env c r d st start v st2) (matchRule P.env' c' r d u start' w u2) := by
  have hfill : P.Values (fillRule r d st2.ruleVar v) (fillRule r d u2.ruleVar w) := by
    intro hsame
    rw [hv hsame, h2.ruleVar hsame]
  have hback := h2.withVar h.ruleVar
  cases hs : r.onSuccess with
  | none =>
    rw [matchRule_of_none hs, matchRule_of_none hs]
    exact .matched hfill (hback.mark _ _)
  | some f =>
    obtain hI | hr := hr
    · rw [matchRule_of_some hs, matchRule_of_some hs]
      have hsame : start' = start := by rw [hstart, hI.shift_eq, Nat.add_zero]
      have ho2 : u2.offset = st2.offset := by rw [h2.offset, hI.shift_eq, Nat.add_zero]
      obtain ⟨heffect, hafter⟩ := hI.perform_beside hctx.chain f ⟨start, st2.offset⟩ none
        (fillRule r d st2.ruleVar v)
        (hback.mark (.succeeded r.name ⟨start, st2.offset⟩) (.succeeded r.name ⟨start, st2.offset⟩))
      simp only [hsame, ho2, hfill hI.same, heffect]
      split
      · exact .matched (Values.refl _) (hafter.mark _ _)
      · exact .failed ((hafter.mark _ _).moveTo h.cursor)
    · rw [hr.success] at hs
      cases hs

/-- A call of a rule, whose body may be another one in the second parse. -/
theorem call_ends_of_bodies {r : Rule} (hr : P.Identical ∨ r.Hookless) (hctx : c.Abreast c')
    {d d' : Definition} (hfill : fillRule r d' = fillRule r d)
    (hskip : P.Leads (skipOver P.env rec c) (skipOver P.env' rec' c'))
    (hbody : P.Simulates (rec d.body { c with varTy := some r.ty })
      (rec' d'.body { c' with varTy := some r.ty })) :
    P.Simulates (call P.env rec r d c) (call P.env' rec' r d' c') := by
  have hmatch : matchRule P.env' c' r d' = matchRule P.env' c' r d := by
    funext st start v st2
    simp only [matchRule, hfill]
  intro st u h
  apply (hskip st u h).afterSkip
  intro st1 u1 h1
  have henter := (h1.mark (.entered r.name) (.entered r.name)).withVar
    (Values.refl (Value.default r.ty))
  rw [hmatch]
  apply (hbody _ _ henter).cases
  · intro v w st2 u2 hv h2
    exact matchRule_ends hr hctx d h h1.offset hv h2
  · intro st2 u2 h2
    have hmiss := (missRule_beside hr hctx h1.offset h2).mark (.left r.name) (.left r.name)
    exact .failed ((hmiss.withVar h.ruleVar).moveTo h.cursor)

theorem call_ends {r : Rule} (hr : P.Identical ∨ r.Hookless) (hctx : c.Abreast c')
    {d : Definition} (hskip : P.Leads (skipOver P.env rec c) (skipOver P.env' rec' c'))
    (hbody : P.Simulates (rec d.body { c with varTy := some r.ty })
      (rec' d.body { c' with varTy := some r.ty })) :
    P.Simulates (call P.env rec r d c) (call P.env' rec' r d c') :=
  call_ends_of_bodies hr hctx rfl hskip hbody

end Node

/-! ## Regimes -/

/-- What two parallel parses have to agree on: which nodes they meet, and in which contexts. -/
structure Regime (P : Parallel) where
  node : Grammar → Prop
  ctx : Ctx → Ctx → Prop
  child : ∀ {g q : Grammar}, node g → q ∈ g.children → node q
  allows : ∀ {g : Grammar}, node g → P.Allows g
  alike : ∀ {c c' : Ctx}, ctx c c' → c.Abreast c'
  /-- terminals take equally many bytes -/
  scan : ∀ {t : Terminal} {c c' : Ctx}, node (.terminal t) → ctx c c' → ∀ rest rest',
    List.Forall₂ P.chars rest rest' →
      (t.scan c'.noCase rest').map Prod.fst = (t.scan c.noCase rest).map Prod.fst
  /-- nothing hangs on what is bound or hidden, nor on the rule variable -/
  frame : ∀ {c c' : Ctx} (chain : Chain Bound Definition) (t : Option Ty), ctx c c' →
    (∀ name, chain.injected? name = c.chain.injected? name) →
      ctx { c with chain, varTy := t } { c' with chain, varTy := t }
  calm : ∀ {c c' : Ctx}, ctx c c' → ctx { c with skipping := false } { c' with skipping := false }
  skip : ∀ {p : Grammar} {c c' : Ctx}, node (.skip p) → ctx c c' →
    ctx { c with skipping := true } { c' with skipping := true }
  skipWith : ∀ {s p : Grammar} {c c' : Ctx}, node (.skipWith s p) → ctx c c' →
    ctx { c with skipper := some s, skipping := true }
      { c' with skipper := some s, skipping := true }
  noCase : ∀ {c c' : Ctx}, ctx c c' → ctx { c with noCase := true } { c' with noCase := true }
  define : ∀ {r : Rule} {force : Bool} {b : Grammar} {c c' : Ctx}, node (.define r force b) →
    ctx c c' → ctx (c.inject r.name ⟨b, force⟩) (c'.inject r.name ⟨b, force⟩)
  body : ∀ {r : Rule} {c c' : Ctx} {d : Definition}, node (.rule r) → ctx c c' →
    (c.chain.injected? r.name).or (P.env.rules r.name) = some d → node d.body

namespace Regime

variable {P : Parallel} (L : Regime P) {c c' : Ctx}

include L

theorem varTy (h : L.ctx c c') (t : Option Ty) :
    L.ctx { c with varTy := t } { c' with varTy := t } := by
  have hframe := L.frame c.chain t h fun _ => rfl
  have hc' : { c' with varTy := t } = { c' with chain := c.chain, varTy := t } := by
    rw [← (L.alike h).chain]
  rw [hc']
  exact hframe

theorem bind (h : L.ctx c c') (key : Key) (b : Bound) : L.ctx (c.bind key b) (c'.bind key b) := by
  have hframe := L.frame (.bind key b :: c.chain) c.varTy h fun _ => rfl
  have hc' : c'.bind key b = { c' with chain := .bind key b :: c.chain, varTy := c.varTy } := by
    rw [← (L.alike h).chain, ← (L.alike h).varTy]
    rfl
  rw [hc']
  exact hframe

theorem hide (h : L.ctx c c') (key : Key) :
    L.ctx { c with chain := .hide key :: c.chain } { c' with chain := .hide key :: c'.chain } := by
  have hframe := L.frame (.hide key :: c.chain) c.varTy h fun _ => rfl
  have hc' : { c' with chain := .hide key :: c'.chain } =
      { c' with chain := .hide key :: c.chain, varTy := c.varTy } := by
    rw [← (L.alike h).chain, ← (L.alike h).varTy]
  rw [hc']
  exact hframe

end Regime

namespace Node

open Parallel (Values)

variable {P : Parallel} {rec rec' : Grammar → Ctx → Step}

theorem bind_simulates {key : Key} {p : Grammar} {c c' : Ctx}
    (h : ∀ b, P.Simulates (rec p (c.bind key b)) (rec' p (c'.bind key b))) (b : Binding) :
    P.Simulates (bind key b (rec p) c) (bind key b (rec' p) c') := by
  intro st u hst
  cases b with
  | own v => exact h _ st u hst
  | annotations => exact h _ st u hst
  | shared id initial => exact h _ _ _ (hst.openCell id initial)
  | fresh initial =>
    -- the level of the cell is the same in both parses
    have hlocals : u.locals = st.locals := by
      obtain ⟨cursor, ruleVar, journal, hc, hv⟩ := hst
      rfl
    simp only [bind, hlocals]
    have hpush := hst.pushLocal initial
    rw [hlocals] at hpush
    exact (h _ _ _ hpush).mapState fun _ _ h1 => h1.dropLocal

/-- One node ends alike in both parses if the parsers that it runs do. -/
theorem step_simulates_of_regime (L : Regime P)
    (h : ∀ q c c', L.node q → L.ctx c c' → P.Simulates (rec q c) (rec' q c'))
    (hskip : ∀ c c', L.ctx c c' → P.Leads (skipOver P.env rec c) (skipOver P.env' rec' c'))
    {g : Grammar} {c c' : Ctx} (hg : L.node g) (hctx : L.ctx c c') :
    P.Simulates (step P.env rec g c) (step P.env' rec' g c') := by
  have halike := L.alike hctx
  have ht := halike.tracking
  have hskips := hskip c c' hctx
  have hallows := L.allows hg
  -- the parsers below, in contexts that the parses agree on, and in that of the node
  have below {q : Grammar} (hq : q ∈ g.children) {c c' : Ctx} (hc : L.ctx c c') :
      P.Simulates (rec q c) (rec' q c') := h q c c' (L.child hg hq) hc
  have part {q : Grammar} (hq : q ∈ g.children) :
      P.Simulates (rec q c) (rec' q c') := below hq hctx
  intro st u hst
  cases g with
  | terminal t =>
    apply (hskips st u hst).afterSkip
    intro st1 u1 h1
    exact takeTerminal_ends halike.noCase (L.scan hg hctx) hst.cursor h1
  | eps cond =>
    obtain ⟨hholds, hafter⟩ := hst.condition cond
    simp only [step, hholds]
    split
    · apply (hskips _ _ hafter).afterSkip
      intro st1 u1 h1
      exact .matched (Values.refl _) h1
    · exact .failed hafter
  | attr ty v => exact .matched (Values.refl v) hst
  | seq ps => exact seqLoop_ends hst.cursor ps (fun p hp => part hp) [] [] (fun _ => rfl) st u hst
  | alt p q =>
    exact alt_ends ht (part (by simp [Grammar.children, Grammar.parts]))
      (part (by simp [Grammar.children, Grammar.parts])) p.ty q.ty st u hst
  | diff p q =>
    exact diff_ends (part (by simp [Grammar.children, Grammar.parts]))
      (part (by simp [Grammar.children, Grammar.parts])) st u hst
  | list p d =>
    exact list_ends ht (part (by simp [Grammar.children, Grammar.parts]))
      (part (by simp [Grammar.children, Grammar.parts])) p.ty st u hst
  | opt p => exact opt_ends ht (part List.mem_cons_self) p.ty st u hst
  | ahead p => exact ahead_ends true (part List.mem_cons_self) st u hst
  | notAhead p => exact ahead_ends false (part List.mem_cons_self) st u hst
  | kleene p => exact times_ends ht (part List.mem_cons_self) p.ty 0 none st u hst
  | plus p => exact times_ends ht (part List.mem_cons_self) p.ty 1 none st u hst
  | times min max p => exact times_ends ht (part List.mem_cons_self) p.ty min max st u hst
  | seek p =>
    exact seekLoop_ends (part List.mem_cons_self) ht hst.cursor _ _ _ _ _ _ hst.cursor hst
  | expect p => exact expect_ends ht hskips (part List.mem_cons_self) st u hst
  | action p f => exact action_ends hallows halike hskips (part List.mem_cons_self) f st u hst
  | raw p => exact raw_ends hskips (part List.mem_cons_self) st u hst
  | discard p => exact (part List.mem_cons_self st u hst).map fun _ => .unused
  | flag p => exact flag_ends (part List.mem_cons_self) st u hst
  | into ty p => exact (part List.mem_cons_self st u hst).map (Value.rebuilt ty p.ty)
  | narrow ty f p => exact narrow_ends hallows f (part List.mem_cons_self) st u hst
  | lexeme p => exact lexeme_ends hskips (below List.mem_cons_self (L.calm hctx)) st u hst
  | noSkip p => exact below List.mem_cons_self (L.calm hctx) st u hst
  | skip p => exact below List.mem_cons_self (L.skip hg hctx) st u hst
  | skipWith s p => exact below (by simp [Grammar.children]) (L.skipWith hg hctx) st u hst
  | noCase p => exact below List.mem_cons_self (L.noCase hctx) st u hst
  | bind key b p =>
    exact bind_simulates (fun b => below List.mem_cons_self (L.bind hctx key b)) b st u hst
  | hide key p => exact below List.mem_cons_self (L.hide hctx key) st u hst
  | rule r =>
    have hout : L.ctx c.outsideRules c'.outsideRules := L.varTy hctx none
    simp only [step, rule, halike.chain, P.rules_eq]
    cases hd : (c.chain.injected? r.name).or (P.env.rules r.name) with
    | none => exact .stopped hst
    | some d =>
      have hbody := h d.body _ _ (L.body hg hctx hd) (L.varTy hout (some r.ty))
      exact call_ends hallows (L.alike hout) (hskip _ _ hout) hbody st u hst
  | define r force body =>
    have hin := L.define hg (L.varTy hctx none)
    have hbody := below List.mem_cons_self (L.varTy hin (some r.ty))
    exact call_ends (d := ⟨body, force⟩) hallows (L.alike hin) (hskip _ _ hin) hbody st u hst
  | group p => exact part List.mem_cons_self st u hst
  | «sealed» hasAction p => exact part List.mem_cons_self st u hst

end Node

/-! ## One context -/

section Equal

variable {P : Parallel} {D : Discipline} {M : Bool → Prop}

/-- The same contexts, under a discipline that allows for the modes of case in `M`. -/
def Regime.equal (henv : P.env.Under D) (hallows : ∀ {g : Grammar}, D.node g → P.Allows g)
    (hmode : M true)
    (hscan : ∀ {t : Terminal} {b : Bool}, D.node (.terminal t) → M b → ∀ rest rest',
      List.Forall₂ P.chars rest rest' →
        (t.scan b rest').map Prod.fst = (t.scan b rest).map Prod.fst) : Regime P where
  node := D.node
  ctx c c' := c' = c ∧ c.Under D ∧ M c.noCase
  child := D.child
  allows := hallows
  alike := by
    rintro c _ ⟨rfl, -⟩
    exact ⟨rfl, rfl, rfl, rfl⟩
  scan := by
    rintro t c _ ht ⟨rfl, -, hc⟩
    exact hscan ht hc
  frame := by
    rintro c _ chain t ⟨rfl, hunder, hc⟩ hchain
    exact ⟨rfl, hunder.like ⟨rfl, rfl, hchain⟩, hc⟩
  calm := by
    rintro c _ ⟨rfl, hunder, hc⟩
    exact ⟨rfl, hunder.like (.skipping _ false), hc⟩
  skip := by
    rintro p c _ - ⟨rfl, hunder, hc⟩
    exact ⟨rfl, hunder.like (.skipping _ true), hc⟩
  skipWith := by
    rintro s p c _ hg ⟨rfl, hunder, hc⟩
    refine ⟨rfl, ⟨fun s' hs' => ?_, hunder.injected⟩, hc⟩
    cases hs'
    exact D.skipWith hg
  noCase := by
    rintro c _ ⟨rfl, hunder, -⟩
    exact ⟨rfl, hunder.like (.noCase _ true), hmode⟩
  define := by
    rintro r force b c _ hg ⟨rfl, hunder, hc⟩
    exact ⟨rfl, hunder.inject (D.define hg), hc⟩
  body := by
    rintro r c _ d hg ⟨rfl, hunder, -⟩ hd
    exact D.ofBody (hunder.body henv hg hd)

/-- Two whole parses with one grammar in one context end alike. -/
theorem parse_simulates (henv : P.env.Under D) (hallows : ∀ {g : Grammar}, D.node g → P.Allows g)
    (hmode : M true)
    (hscan : ∀ {t : Terminal} {b : Bool}, D.node (.terminal t) → M b → ∀ rest rest',
      List.Forall₂ P.chars rest rest' →
        (t.scan b rest').map Prod.fst = (t.scan b rest).map Prod.fst)
    (hskipper : ∀ s, D.skipper s → D.node s ∧ M false) (n : Nat) {g : Grammar}
    (hg : D.node g) {c : Ctx} (hunder : c.Under D) (hc : M c.noCase) :
    P.Simulates (parse P.env n g c) (parse P.env' n g c) := by
  -- on the fuel: what a node runs has one level less
  induction n generalizing g c with
  | zero =>
    intro st u h
    exact .stopped h
  | succ n ih =>
    rw [parse_eq_step, parse_eq_step]
    apply Node.step_simulates_of_regime (Regime.equal henv hallows hmode hscan)
    · rintro q c _ hq ⟨rfl, hunder, hc⟩
      exact ih hq hunder hc
    · rintro c _ ⟨rfl, hunder, -⟩
      apply Node.skipOver_leads_of_eq rfl rfl
      intro s hs
      obtain ⟨hnode, hfalse⟩ := hskipper s (hunder.skipper s hs)
      exact ih hnode Ctx.root_under hfalse
    · exact hg
    · exact ⟨rfl, hunder, hc⟩

end Equal

/-! ## Up to the journal -/

/-- The states are the same but for the journal. -/
def State.SameButJournal (st u : State) : Prop := u = { st with journal := u.journal }

/-- The outcomes are the same but for the journal. -/
def Outcome.SameButJournal : Outcome → Outcome → Prop
  | .matched v st, .matched w u => w = v ∧ st.SameButJournal u
  | .failed st, .failed u => st.SameButJournal u
  | .stopped h, .stopped h' => h'.why = h.why ∧ h.state.SameButJournal h'.state
  | _, _ => False

theorem State.SameButJournal.symm {st u : State} (h : st.SameButJournal u) :
    u.SameButJournal st := by
  rw [SameButJournal] at h
  rw [h]
  rfl

theorem Outcome.SameButJournal.symm {o o' : Outcome} (h : o.SameButJournal o') :
    o'.SameButJournal o := by
  cases o with
  | matched v st =>
    cases o' with
    | matched w u => exact ⟨h.1.symm, h.2.symm⟩
    | _ => exact h.elim
  | failed st =>
    cases o' with
    | failed u => exact State.SameButJournal.symm h
    | _ => exact h.elim
  | stopped hlt =>
    cases o' with
    | stopped hlt' => exact ⟨h.1.symm, h.2.symm⟩
    | _ => exact h.elim

/-- What is the same as a match is one. -/
theorem Outcome.SameButJournal.of_matched {v : Value} {st : State} {o : Outcome}
    (h : (Outcome.matched v st).SameButJournal o) :
    ∃ u, o = .matched v u ∧ st.SameButJournal u := by
  cases o with
  | matched w u =>
    obtain ⟨rfl, h⟩ := h
    exact ⟨u, rfl, h⟩
  | _ => exact h.elim

/-- What is the same as a failure is one. -/
theorem Outcome.SameButJournal.of_failed {st : State} {o : Outcome}
    (h : (Outcome.failed st).SameButJournal o) : ∃ u, o = .failed u ∧ st.SameButJournal u := by
  cases o with
  | failed u => exact ⟨u, rfl, h⟩
  | _ => exact h.elim

/-! ## One text -/

/-- Terminals take the same of the same text. -/
theorem Parallel.scan_of_sameValues {P : Parallel} (hv : P.sameValues) {t : Terminal} {b b' : Bool}
    (hb : b' = b) (rest rest' : Text) (h : List.Forall₂ P.chars rest rest') :
    (t.scan b' rest').map Prod.fst = (t.scan b rest).map Prod.fst := by
  rw [hb, text_eq hv h]

/-- Two parses of one text. -/
def Parallel.twin (env : Env) (lost : Halt → Prop) : Parallel where
  env := env
  env' := env
  shift := 0
  chars c c' := c' = c
  sameValues := True
  lost := lost
  rules_eq := rfl
  length_eq := rfl
  size_eq h := congrArg Char.utf8Size h
  chars_eq _ _ _ h := h

namespace Parallel

variable {env : Env} {lost : Halt → Prop} {st u : State}

theorem twin_identical : (twin env lost).Identical := ⟨rfl, rfl, trivial⟩

theorem twin_at {c : Cursor} (h : c.In env.source) : (twin env lost).At c c := by
  refine ⟨h, rfl, ?_⟩
  exact List.forall₂_same.mpr fun _ _ => rfl

/-- States that differ in the journal are beside each other. -/
theorem twin_beside (h : st.cursor.In env.source) (journal : List Incident) :
    (twin env lost).Beside st { st with journal } := by
  refine .of_eq (twin_at h) (fun _ => rfl) ?_
  rw [twin_identical.later_eq]

end Parallel

/-- No parse looks at the journal, and none leaves the text. -/
theorem parse_twin (env : Env) (lost : Halt → Prop) (n : Nat) (g : Grammar) (ctx : Ctx) :
    (Parallel.twin env lost).Simulates (parse env n g ctx) (parse env n g ctx) :=
  parse_simulates (P := .twin env lost) (M := fun _ => True) (Discipline.any_env env)
    (fun _ => Parallel.twin_identical.allows _) trivial
    (fun _ _ => Parallel.scan_of_sameValues trivial rfl) (fun _ _ => ⟨trivial, trivial⟩) n trivial
    (Discipline.any_ctx ctx) trivial

end Peg
