/-
  Peg.Proofs.Memoryless

  Parsers that remember nothing. Actions, scripts, and hooks that look at more than the
  match can make an answer hang on what happened before. Without them, and without
  commit points where failures are tracked, it hangs on the place alone: from two states
  at one place, whatever else they hold, a parser comes to the same value and the same
  place, or fails or halts in both.

  The two states keep what they had on record and in the rule variable, which may
  differ; a ledger holds both. Only a call changes the ledger, for its body alone: there
  both variables are fresh. Contexts may differ in what is bound, as a cell that lives
  in one directive has its level from the state.
-/
import Peg.Proofs.Answers
import Peg.Proofs.Course

namespace Peg

/-! ## Nodes that remember nothing -/

/-- The action decides and answers by the match: the text, the span, the attribute, and whether it
    is accepted so far. -/
def Action.Steady (f : Action) : Prop :=
  ∀ s s' e e', s'.source = s.source → s'.span = s.span → e'.attr = e.attr → e'.passed = e.passed →
    (f s' e').attr = (f s e).attr ∧ (f s' e').passed = (f s e).passed

/-- Nothing hangs on what happened before the node is parsed, nor does the node record anything. -/
def Grammar.Forgetful (ctx : Ctx) : Grammar → Prop
  | .action _ _ => False
  | .eps (.scripted _ _) => False
  | .expect _ => ctx.tracking = false
  | .rule r | .define r _ _ => ∀ f, r.onSuccess = some f → f.Steady
  | _ => True

/-- No action, no script, and no hook for matches. -/
def Grammar.isPlain : Grammar → Bool
  | .action _ _ | .eps (.scripted _ _) => false
  | .rule r | .define r _ _ => r.onSuccess.isNone
  | _ => true

/-- Where failures are not tracked, plain nodes remember nothing. -/
theorem Grammar.Forgetful.of_isPlain {g : Grammar} {c : Ctx} (h : g.isPlain = true)
    (ht : c.tracking = false) : g.Forgetful c := by
  cases g with
  | action p f => cases h
  | eps cond =>
    cases cond with
    | scripted id answers => cases h
    | always | fixed => trivial
  | expect p => exact ht
  | rule r | define r force body =>
    intro f hf
    rw [isPlain, hf] at h
    cases h
  | _ => trivial

/-- All that the parser comes to run is so. -/
def Forgets (env : Env) (g : Grammar) (ctx : Ctx) : Prop :=
  ∀ q c, ComesTo env g ctx q c → q.Forgetful c

/-- The contexts are the same but for what is bound, hidden and in the rule variable. -/
structure Ctx.Kindred (c c' : Ctx) : Prop where
  skipper : c'.skipper = c.skipper
  skipping : c'.skipping = c.skipping
  noCase : c'.noCase = c.noCase
  tracking : c'.tracking = c.tracking
  injected : ∀ name, c'.chain.injected? name = c.chain.injected? name

theorem Ctx.Kindred.refl (c : Ctx) : c.Kindred c := ⟨rfl, rfl, rfl, rfl, fun _ => rfl⟩

theorem Ctx.Kindred.outsideRules {c c' : Ctx} (h : c.Kindred c') :
    c.outsideRules.Kindred c'.outsideRules :=
  ⟨h.skipper, h.skipping, h.noCase, h.tracking, h.injected⟩

/-- Skipping switched on or off in both. -/
theorem Ctx.Kindred.switched {c c' : Ctx} (h : c.Kindred c') (b : Bool) :
    Ctx.Kindred { c with skipping := b } { c' with skipping := b } :=
  ⟨h.skipper, rfl, h.noCase, h.tracking, h.injected⟩

theorem Ctx.Kindred.inject {c c' : Ctx} (h : c.Kindred c') (name : String) (d : Definition) :
    (c.inject name d).Kindred (c'.inject name d) := by
  refine ⟨h.skipper, h.skipping, h.noCase, h.tracking, fun other => ?_⟩
  simp only [Ctx.inject, Chain.injected?, h.injected]

/-! ## Two states at one place -/

/-- What two parses hold from beginning to end: the values of the rule variable, and the failures on
    record. -/
structure Ledger where
  ruleVar : Value
  ruleVar' : Value
  failure : Option Failure
  failure' : Option Failure

namespace Ledger

/-- The states are at the same place, and hold what is in the ledger. -/
structure At (L : Ledger) (st u : State) : Prop where
  cursor : u.cursor = st.cursor
  ruleVar : st.ruleVar = L.ruleVar
  ruleVar' : u.ruleVar = L.ruleVar'
  failure : st.failure = L.failure
  failure' : u.failure = L.failure'

/-- Where failures are tracked, one is on record in both parses or in neither. -/
def Level (L : Ledger) (c : Ctx) : Prop :=
  c.tracking = true → L.failure'.isSome = L.failure.isSome

/-- The parsers come to the same, at the same place, and give back what is in the ledger. -/
inductive Ends (L : Ledger) : Outcome → Outcome → Prop where
  | matched (v : Value) {st u : State} (h : L.At st u) : L.Ends (.matched v st) (.matched v u)
  | failed {st u : State} (h : L.At st u) : L.Ends (.failed st) (.failed u)
  | stopped {hlt hlt' : Halt} (h : hlt'.why = hlt.why) : L.Ends (.stopped hlt) (.stopped hlt')

/-- The same for computations that end well or halt. -/
inductive Settle {α : Type} (R : α → α → Prop) : Except Halt α → Except Halt α → Prop where
  | ok {a b : α} (h : R a b) : Settle R (.ok a) (.ok b)
  | error {hlt hlt' : Halt} (h : hlt'.why = hlt.why) : Settle R (.error hlt) (.error hlt')

/-- From states at the same place the parsers come to the same. -/
def Simulates (L : Ledger) (p p' : Step) : Prop := ∀ st u, L.At st u → L.Ends (p st) (p' u)

/-- The same for what is done before a parser. -/
def Leads (L : Ledger) (s s' : State → Except Halt State) : Prop :=
  ∀ st u, L.At st u → Settle L.At (s st) (s' u)

/-- Loops have gathered the same values, and have come to the same place. -/
def Gathered (L : Ledger) (r r' : List Value × State) : Prop := r'.1 = r.1 ∧ L.At r.2 r'.2

variable {L : Ledger} {c c' : Ctx} {st u st1 u1 : State}

namespace At

theorem offset (h : L.At st u) : u.offset = st.offset := by
  rw [State.offset, h.cursor]
  rfl

theorem moveTo (h : L.At st u) (q : Cursor) : L.At (st.moveTo q) (u.moveTo q) :=
  ⟨rfl, h.ruleVar, h.ruleVar', h.failure, h.failure'⟩

theorem mark (h : L.At st u) (i i' : Incident) : L.At (st.mark i) (u.mark i') :=
  ⟨h.cursor, h.ruleVar, h.ruleVar', h.failure, h.failure'⟩

/-- Back to the place of two other states. -/
theorem back (h1 : L.At st1 u1) (h : L.At st u) :
    L.At (st1.moveTo st.cursor) (u1.moveTo u.cursor) := by
  rw [h.cursor]
  exact h1.moveTo st.cursor

/-- A failure is pending in both parses or in neither. -/
theorem pending (h : L.At st u) (hc : c.Kindred c') (hl : L.Level c) :
    u.pending c' = st.pending c := by
  rw [State.pending, State.pending, hc.tracking, h.failure, h.failure']
  cases ht : c.tracking with
  | false => rfl
  | true => rw [hl ht]

theorem rounds_eq (h : L.At st u) (env : Env) : Node.rounds env u = Node.rounds env st := by
  rw [Node.rounds, h.offset]
  rfl

/-- Opening a cell is not seen. -/
theorem openCell (h : L.At st u) (id : Nat) (v : Value) :
    L.At (st.openCell id v) (u.openCell id v) := by
  rw [State.openCell_eq, u.openCell_eq]
  exact ⟨h.cursor, h.ruleVar, h.ruleVar', h.failure, h.failure'⟩

end At

/-- The ledger of the body of a rule: both parses have given the variable the same value. -/
def within (L : Ledger) (v : Value) : Ledger := { L with ruleVar := v, ruleVar' := v }

/-- What goes on after a parser may do so with another ledger. -/
theorem Ends.cases {L' : Ledger} {o o' : Outcome} {hit hit' : Value → State → Outcome}
    {miss miss' : State → Outcome} (h : L'.Ends o o')
    (hhit : ∀ v st u, L'.At st u → L.Ends (hit v st) (hit' v u))
    (hmiss : ∀ st u, L'.At st u → L.Ends (miss st) (miss' u)) :
    L.Ends (o.cases hit miss) (o'.cases hit' miss') := by
  cases h with
  | matched v h => exact hhit v _ _ h
  | failed h => exact hmiss _ _ h
  | stopped h => exact .stopped h

theorem Settle.afterSkip {o o' : Except Halt State} {k k' : Step} (h : Settle L.At o o')
    (hk : ∀ st u, L.At st u → L.Ends (k st) (k' u)) :
    L.Ends (Node.afterSkip o k) (Node.afterSkip o' k') := by
  cases h with
  | ok h => exact hk _ _ h
  | error h => exact .stopped h

end Ledger

namespace Node

open Ledger (At Ends Settle Simulates Leads)

variable {L : Ledger} {env : Env} {c c' : Ctx} {p p' q q' : Step}

/-! ## Loops -/

section Loops

variable (hp : L.Simulates p p')

include hp

theorem skipLoop_keeps (n : Nat) (st u : State) (h : L.At st u) :
    Settle L.At (skipLoop p n st) (skipLoop p' n u) := by
  induction n generalizing st u with
  | zero => exact .error rfl
  | succ n ih =>
    have h1 := hp st u h
    rw [skipLoop, skipLoop]
    revert h1
    generalize p st = o
    generalize p' u = o'
    intro h1
    cases h1 with
    | matched v h1 =>
      simp only [h.offset, h1.offset]
      split
      · exact .ok h1
      · exact ih _ _ h1
    | failed h1 => exact .ok h1
    | stopped h1 => exact .error h1

theorem repeatLoop_keeps (n : Nat) (vs : List Value) (st u : State) (h : L.At st u) :
    Settle (L.Gathered) (repeatLoop p n vs st) (repeatLoop p' n vs u) := by
  induction n generalizing vs st u with
  | zero => exact .error rfl
  | succ n ih =>
    have h1 := hp st u h
    rw [repeatLoop, repeatLoop]
    revert h1
    generalize p st = o
    generalize p' u = o'
    intro h1
    cases h1 with
    | matched v h1 =>
      simp only [h.offset, h1.offset]
      split
      · exact .ok ⟨rfl, h1⟩
      · exact ih _ _ _ h1
    | failed h1 => exact .ok ⟨rfl, h1⟩
    | stopped h1 => exact .error h1

theorem repeatUpTo_keeps (n : Nat) (vs : List Value) (st u : State) (h : L.At st u) :
    Settle (L.Gathered) (repeatUpTo p n vs st) (repeatUpTo p' n vs u) := by
  induction n generalizing vs st u with
  | zero => exact .ok ⟨rfl, h⟩
  | succ n ih =>
    have h1 := hp st u h
    rw [repeatUpTo, repeatUpTo]
    revert h1
    generalize p st = o
    generalize p' u = o'
    intro h1
    cases h1 with
    | matched v h1 => exact ih _ _ _ h1
    | failed h1 => exact .ok ⟨rfl, h1⟩
    | stopped h1 => exact .error h1

theorem listLoop_keeps (hq : L.Simulates q q') (n : Nat) (vs : List Value) (st u : State)
    (h : L.At st u) : Settle (L.Gathered) (listLoop p q n vs st) (listLoop p' q' n vs u) := by
  induction n generalizing vs st u with
  | zero => exact .error rfl
  | succ n ih =>
    have h1 := hq st u h
    rw [listLoop, listLoop]
    revert h1
    generalize q st = o
    generalize q' u = o'
    intro h1
    -- a delimiter, and then an element
    cases h1 with
    | @matched _ st1 u1 h1 =>
      have h2 := hp st1 u1 h1
      dsimp only
      revert h2
      generalize p st1 = o
      generalize p' u1 = o'
      intro h2
      cases h2 with
      | matched v h2 =>
        simp only [h.offset, h2.offset]
        split
        · exact .ok ⟨rfl, h2⟩
        · exact ih _ _ _ h2
      | failed h2 => exact .ok ⟨rfl, h2.back h⟩
      | stopped h2 => exact .error h2
    | failed h1 => exact .ok ⟨rfl, h1⟩
    | stopped h1 => exact .error h1

theorem seekLoop_keeps (hc : c.Kindred c') (hl : L.Level c) (start : Cursor) (rest : Text)
    (offset : Nat) (st u : State) (h : L.At st u) :
    L.Ends (seekLoop (·.pending c) p start offset rest st)
      (seekLoop (·.pending c') p' start offset rest u) := by
  induction rest generalizing offset st u with
  | nil =>
    have h1 := hp _ _ (h.moveTo ⟨offset, []⟩)
    rw [seekLoop, seekLoop]
    revert h1
    generalize p (st.moveTo ⟨offset, []⟩) = o
    generalize p' (u.moveTo ⟨offset, []⟩) = o'
    intro h1
    cases h1 with
    | matched v h1 => exact .matched v h1
    | failed h1 =>
      simp only [ite_self]
      exact .failed (h1.moveTo start)
    | stopped h1 => exact .stopped h1
  | cons x r ih =>
    have h1 := hp _ _ (h.moveTo ⟨offset, x :: r⟩)
    rw [seekLoop, seekLoop]
    revert h1
    generalize p (st.moveTo ⟨offset, x :: r⟩) = o
    generalize p' (u.moveTo ⟨offset, x :: r⟩) = o'
    intro h1
    cases h1 with
    | matched v h1 => exact .matched v h1
    | failed h1 =>
      simp only [h1.pending hc hl]
      split
      · exact .failed (h1.moveTo start)
      · exact ih _ _ _ h1
    | stopped h1 => exact .stopped h1

end Loops

theorem endRepeat_keeps (hc : c.Kindred c') (hl : L.Level c) {t : Ty} {min : Nat} {start : Cursor}
    {o o' : Except Halt (List Value × State)} (h : Settle L.Gathered o o') :
    L.Ends (endRepeat c t min start o) (endRepeat c' t min start o') := by
  cases h with
  | @ok r r' h =>
    obtain ⟨vs, st⟩ := r
    obtain ⟨ws, u⟩ := r'
    obtain ⟨rfl, hst⟩ : ws = vs ∧ L.At st u := h
    simp only [endRepeat, hst.pending hc hl]
    split
    · exact .failed (hst.moveTo start)
    · exact .matched _ hst
  | error h => exact .stopped h

theorem times_keeps (hc : c.Kindred c') (hl : L.Level c) (hp : L.Simulates p p') (t : Ty)
    (min : Nat) (max : Option Nat) :
    L.Simulates (times env c t min max p) (times env c' t min max p') := by
  intro st u h
  unfold times
  rw [h.cursor]
  apply endRepeat_keeps hc hl
  cases max with
  | none =>
    simp only [h.rounds_eq]
    exact repeatLoop_keeps hp _ _ _ _ h
  | some n => exact repeatUpTo_keeps hp n _ _ _ h

theorem list_keeps (hc : c.Kindred c') (hl : L.Level c) (hp : L.Simulates p p')
    (hq : L.Simulates q q') (t : Ty) : L.Simulates (list env c t p q) (list env c' t p' q') := by
  intro st u h
  apply (hp st u h).cases
  · intro v st1 u1 h1
    rw [h.cursor, h1.rounds_eq]
    exact endRepeat_keeps hc hl (listLoop_keeps hp hq _ _ _ _ h1)
  · intro st1 u1 h1
    exact .failed h1

theorem seqLoop_keeps {run run' : Grammar → Step} (start : Cursor) (ps : List Grammar)
    (h : ∀ p ∈ ps, L.Simulates (run p) (run' p)) (slots : List Value) :
    L.Simulates (seqLoop run start ps slots) (seqLoop run' start ps slots) := by
  induction ps generalizing slots with
  | nil =>
    intro st u hst
    exact .matched _ hst
  | cons p ps ih =>
    intro st u hst
    rw [seqLoop, seqLoop]
    apply (h p List.mem_cons_self st u hst).cases
    · intro v st1 u1 h1
      exact ih (fun q hq => h q (List.mem_cons_of_mem _ hq)) _ st1 u1 h1
    · intro st1 u1 h1
      exact .failed (h1.moveTo start)

/-! ## Single nodes -/

theorem skipOver_keeps {rec rec' : Grammar → Ctx → Step} (hc : c.Kindred c')
    (h : ∀ s, c.skipper = some s → L.Simulates (rec s Ctx.root) (rec' s Ctx.root)) :
    L.Leads (skipOver env rec c) (skipOver env rec' c') := by
  intro st u hst
  unfold skipOver
  rw [hc.skipper, hc.skipping]
  cases c.skipping with
  | false => exact .ok hst
  | true =>
    cases hs : c.skipper with
    | none => exact .ok hst
    | some s =>
      simp only [hst.rounds_eq]
      exact skipLoop_keeps (h s hs) _ st u hst

theorem takeTerminal_keeps (t : Terminal) (noCase : Bool) (start : Cursor) :
    L.Simulates (takeTerminal t noCase start) (takeTerminal t noCase start) := by
  intro st u h
  have hoffset := h.offset
  rw [takeTerminal, takeTerminal, h.cursor]
  split
  · exact .failed (h.moveTo start)
  · split
    · exact .matched _ (h.moveTo _)
    · apply Ends.stopped
      rw [hoffset]

section Subjects

variable (hp : L.Simulates p p')

include hp

theorem alt_keeps (hc : c.Kindred c') (hl : L.Level c) (hq : L.Simulates q q') (l r : Ty) :
    L.Simulates (alt c l r p q) (alt c' l r p' q') := by
  intro st u h
  apply (hp st u h).cases
  · intro v st1 u1 h1
    exact .matched _ h1
  · intro st1 u1 h1
    rw [h1.pending hc hl]
    split
    · exact .failed h1
    · apply (hq st1 u1 h1).cases
      · intro v st2 u2 h2
        exact .matched _ h2
      · intro st2 u2 h2
        exact .failed h2

theorem diff_keeps (hq : L.Simulates q q') : L.Simulates (diff p q) (diff p' q') := by
  intro st u h
  apply (hq st u h).cases
  · intro v st1 u1 h1
    exact .failed (h1.back h)
  · exact hp

theorem opt_keeps (hc : c.Kindred c') (hl : L.Level c) (t : Ty) :
    L.Simulates (opt c t p) (opt c' t p') := by
  intro st u h
  apply (hp st u h).cases
  · intro v st1 u1 h1
    exact .matched _ h1
  · intro st1 u1 h1
    rw [h1.pending hc hl]
    split
    · exact .failed h1
    · exact .matched _ h1

theorem ahead_keeps (wanted : Bool) : L.Simulates (ahead wanted p) (ahead wanted p') := by
  intro st u h
  apply (hp st u h).cases
  · intro v st1 u1 h1
    cases wanted
    · exact .failed (h1.back h)
    · exact .matched _ (h1.back h)
  · intro st1 u1 h1
    cases wanted
    · exact .matched _ (h1.back h)
    · exact .failed (h1.back h)

theorem mapValue_keeps (f : Value → Value) : L.Simulates (mapValue f p) (mapValue f p') := by
  intro st u h
  apply (hp st u h).cases
  · intro v st1 u1 h1
    exact .matched _ h1
  · intro st1 u1 h1
    exact .failed h1

theorem flag_keeps : L.Simulates (flag p) (flag p') := by
  intro st u h
  apply (hp st u h).cases
  · intro v st1 u1 h1
    exact .matched _ h1
  · intro st1 u1 h1
    exact .matched _ h1

theorem narrow_keeps (f : Value → Option Value) : L.Simulates (narrow f p) (narrow f p') := by
  intro st u h
  apply (hp st u h).cases
  · intro v st1 u1 h1
    cases f v with
    | some w => exact .matched w h1
    | none => exact .failed (h1.back h)
  · intro st1 u1 h1
    exact .failed h1

theorem raw_keeps {rec rec' : Grammar → Ctx → Step}
    (hskip : L.Leads (skipOver env rec c) (skipOver env rec' c')) :
    L.Simulates (raw env rec c p) (raw env rec' c' p') := by
  intro st u h
  apply (hskip st u h).afterSkip
  intro st1 u1 h1
  apply (hp st1 u1 h1).cases
  · intro v st2 u2 h2
    rw [h1.cursor, h1.offset, h2.offset]
    exact .matched _ h2
  · intro st2 u2 h2
    exact .failed (h2.back h)

theorem lexeme_keeps {rec rec' : Grammar → Ctx → Step}
    (hskip : L.Leads (skipOver env rec c) (skipOver env rec' c')) :
    L.Simulates (lexeme env rec c p) (lexeme env rec' c' p') := by
  intro st u h
  apply (hskip st u h).afterSkip
  intro st1 u1 h1
  apply (hp st1 u1 h1).cases
  · intro v st2 u2 h2
    exact .matched v h2
  · intro st2 u2 h2
    exact .failed (h2.back h)

end Subjects

/-- Where failures are not tracked, a commit point is its subject. -/
theorem expect_keeps {rec rec' : Grammar → Ctx → Step} {g : Grammar} (hc : c.Kindred c')
    (ht : c.tracking = false) (hp : L.Simulates (rec g c) (rec' g c')) :
    L.Simulates (expect env rec c g) (expect env rec' c' g) := by
  intro st u h
  apply (hp st u h).cases
  · intro v st1 u1 h1
    exact .matched v h1
  · intro st1 u1 h1
    rw [hc.tracking, ht]
    exact .failed h1

/-! ## Bindings and calls -/

/-- The cell of a directive is made and dropped in both parses. -/
theorem bind_keeps {key : Key} {p p' : Ctx → Step}
    (h : ∀ b b', L.Simulates (p (c.bind key b)) (p' (c'.bind key b'))) (b : Binding) :
    L.Simulates (bind key b p c) (bind key b p' c') := by
  intro st u hst
  cases b with
  | own v => exact h _ _ st u hst
  | annotations => exact h _ _ st u hst
  | shared id initial => exact h _ _ _ _ (hst.openCell id initial)
  | fresh initial =>
    have hpush : L.At { st with locals := initial :: st.locals }
        { u with locals := initial :: u.locals } := { hst with }
    have hends := h (.cell (.fresh st.locals.length)) (.cell (.fresh u.locals.length)) _ _ hpush
    rw [bind, bind]
    revert hends
    generalize p _ _ = o
    generalize p' _ _ = o'
    intro hends
    cases hends with
    | matched v h1 => exact .matched v { h1 with }
    | failed h1 => exact .failed { h1 with }
    | stopped h1 => exact .stopped h1

/-- A hook that sees no rule variable leaves it alone. -/
theorem perform_ruleVar (env : Env) (ctx : Ctx) (f : Action) (span : Span) (v : Value)
    (st : State) : (perform env ctx f span none v st).2.ruleVar = st.ruleVar := by
  simp only [perform]
  rw [State.store_eq]
  rfl

/-- A steady hook decides the same in both parses. -/
theorem perform_keeps (env : Env) (c c' : Ctx) {f : Action} (hf : f.Steady) (span : Span)
    (v : Value) {st u : State} (h : L.At st u) :
    (perform env c' f span none v u).1.attr = (perform env c f span none v st).1.attr ∧
      (perform env c' f span none v u).1.passed = (perform env c f span none v st).1.passed ∧
      L.At (perform env c f span none v st).2 (perform env c' f span none v u).2 := by
  obtain ⟨hattr, hpassed⟩ : (perform env c' f span none v u).1.attr =
        (perform env c f span none v st).1.attr ∧
      (perform env c' f span none v u).1.passed = (perform env c f span none v st).1.passed := by
    apply hf <;> rfl
  refine ⟨hattr, hpassed, ?_, ?_, ?_, ?_, ?_⟩
  · rw [perform_cursor, perform_cursor, h.cursor]
  · rw [perform_ruleVar, h.ruleVar]
  · rw [perform_ruleVar, h.ruleVar']
  · rw [perform_failure, h.failure]
  · rw [perform_failure, h.failure']

/-- What a rule does after its body matched, with a variable of its own. -/
theorem matchRule_keeps {r : Rule} (hr : ∀ f, r.onSuccess = some f → f.Steady) (d : Definition)
    {st u : State} (h : L.At st u) (start : Nat) (v x : Value) {st2 u2 : State}
    (h2 : (L.within x).At st2 u2) :
    L.Ends (matchRule env c r d st start v st2) (matchRule env c' r d u start v u2) := by
  have hvar : u2.ruleVar = st2.ruleVar := h2.ruleVar'.trans h2.ruleVar.symm
  have hback : L.At { st2 with ruleVar := st.ruleVar } { u2 with ruleVar := u.ruleVar } :=
    ⟨h2.cursor, h.ruleVar, h.ruleVar', h2.failure, h2.failure'⟩
  cases hs : r.onSuccess with
  | none =>
    simp only [matchRule_of_none hs, hvar]
    exact .matched _ (hback.mark _ _)
  | some f =>
    have hmarked := hback.mark (.succeeded r.name ⟨start, st2.offset⟩)
      (.succeeded r.name ⟨start, st2.offset⟩)
    obtain ⟨hattr, hpassed, hafter⟩ := perform_keeps env c c' (hr f hs) ⟨start, st2.offset⟩
      (fillRule r d st2.ruleVar v) hmarked
    simp only [matchRule_of_some hs, hvar, h2.offset, hattr, hpassed]
    split
    · exact .matched _ (hafter.mark _ _)
    · exact .failed ((hafter.mark _ _).back h)

theorem call_keeps {rec rec' : Grammar → Ctx → Step} {r : Rule} {d : Definition}
    (hr : ∀ f, r.onSuccess = some f → f.Steady)
    (hskip : L.Leads (skipOver env rec c) (skipOver env rec' c'))
    (hbody : (L.within (Value.default r.ty)).Simulates (rec d.body { c with varTy := some r.ty })
      (rec' d.body { c' with varTy := some r.ty })) :
    L.Simulates (call env rec r d c) (call env rec' r d c') := by
  intro st u h
  apply (hskip st u h).afterSkip
  intro st1 u1 h1
  have henter : (L.within (Value.default r.ty)).At
      { st1.mark (.entered r.name) with ruleVar := Value.default r.ty }
      { u1.mark (.entered r.name) with ruleVar := Value.default r.ty } :=
    ⟨h1.cursor, rfl, rfl, h1.failure, h1.failure'⟩
  apply (hbody _ _ henter).cases
  · intro v st2 u2 h2
    rw [h1.offset]
    exact matchRule_keeps hr d h st1.offset v _ h2
  · intro st2 u2 h2
    -- the hook for failures changes neither the place nor the record
    refine .failed ⟨h.cursor, h.ruleVar, h.ruleVar', ?_, ?_⟩
    · exact (missRule_failure ..).trans h2.failure
    · exact (missRule_failure ..).trans h2.failure'

/-! ## The table -/

/-- One node that remembers nothing comes to the same in both parses if the parsers that it runs
    do. -/
theorem step_keeps {rec rec' : Grammar → Ctx → Step} {g : Grammar} (hc : c.Kindred c')
    (hl : L.Level c) (hg : g.Forgetful c)
    (h : ∀ {moved : Bool} {q : Grammar} {d d' : Ctx} (L' : Ledger), Runs env g c moved q d →
      d.Kindred d' → L'.Level d → L'.Simulates (rec q d) (rec' q d')) :
    L.Simulates (step env rec g c) (step env rec' g c') := by
  have hskip (d d' : Ctx) (hd : d.Kindred d') (hskipper : d.skipper = c.skipper) :
      L.Leads (skipOver env rec d) (skipOver env rec' d') := by
    apply skipOver_keeps hd
    intro s hs
    exact h L (.skipper (hskipper ▸ hs)) (.refl _) nofun
  have hskips := hskip c c' hc rfl
  -- the parsers below, in the context of the node and in one like it
  have below {q : Grammar} (hq : q ∈ g.parts) {d d' : Ctx} (hd : d.Kindred d') (hlike : d.Like c) :
      L.Simulates (rec q d) (rec' q d') := by
    apply h L (.part hq hlike) hd
    intro ht
    exact hl (hlike.tracking ▸ ht)
  have part {q : Grammar} (hq : q ∈ g.parts) : L.Simulates (rec q c) (rec' q c') :=
    below hq hc (.refl c)
  intro st u hst
  cases g with
  | terminal t =>
    apply (hskips st u hst).afterSkip
    intro st1 u1 h1
    rw [hc.noCase, hst.cursor]
    exact takeTerminal_keeps t c.noCase st.cursor st1 u1 h1
  | eps cond =>
    have hcond : (condition cond u).1 = (condition cond st).1 ∧
        L.At (condition cond st).2 (condition cond u).2 := by
      cases cond with
      | always => exact ⟨rfl, hst⟩
      | fixed holds => exact ⟨rfl, hst⟩
      | scripted id answers => exact hg.elim
    simp only [step, hcond.1]
    split
    · apply (hskips _ _ hcond.2).afterSkip
      intro st1 u1 h1
      exact .matched _ h1
    · exact .failed hcond.2
  | attr ty v => exact .matched v hst
  | seq ps =>
    simp only [step, hst.cursor]
    apply seqLoop_keeps st.cursor ps _ [] st u hst
    intro p hp
    obtain ⟨before, after, rfl⟩ := List.append_of_mem hp
    exact h L (.seq before p after c) hc hl
  | alt p q =>
    exact alt_keeps (part (by simp [Grammar.parts])) hc hl (part (by simp [Grammar.parts])) p.ty
      q.ty st u hst
  | diff p q =>
    exact diff_keeps (part (by simp [Grammar.parts])) (part (by simp [Grammar.parts])) st u hst
  | list p d =>
    exact list_keeps hc hl (part (by simp [Grammar.parts])) (part (by simp [Grammar.parts])) p.ty
      st u hst
  | opt p => exact opt_keeps (part List.mem_cons_self) hc hl p.ty st u hst
  | ahead p => exact ahead_keeps (part List.mem_cons_self) true st u hst
  | notAhead p => exact ahead_keeps (part List.mem_cons_self) false st u hst
  | kleene p => exact times_keeps hc hl (part List.mem_cons_self) p.ty 0 none st u hst
  | plus p => exact times_keeps hc hl (part List.mem_cons_self) p.ty 1 none st u hst
  | times min max p => exact times_keeps hc hl (part List.mem_cons_self) p.ty min max st u hst
  | seek p =>
    simp only [step, seek, hst.cursor, hst.offset]
    exact seekLoop_keeps (part List.mem_cons_self) hc hl _ _ _ st u hst
  | expect p => exact expect_keeps hc hg (part List.mem_cons_self) st u hst
  | action p f => exact hg.elim
  | raw p => exact raw_keeps (part List.mem_cons_self) hskips st u hst
  | discard p => exact mapValue_keeps (part List.mem_cons_self) _ st u hst
  | flag p => exact flag_keeps (part List.mem_cons_self) st u hst
  | into ty p => exact mapValue_keeps (part List.mem_cons_self) _ st u hst
  | narrow ty f p => exact narrow_keeps (part List.mem_cons_self) f st u hst
  | lexeme p =>
    have hp := below (q := p) List.mem_cons_self (hc.switched false) (.skipping c false)
    exact lexeme_keeps hp hskips st u hst
  | noSkip p =>
    exact below List.mem_cons_self (hc.switched false) (.skipping c false) st u hst
  | skip p =>
    exact below List.mem_cons_self (hc.switched true) (.skipping c true) st u hst
  | skipWith s p =>
    have hother : Ctx.Kindred { c with skipper := some s, skipping := true }
        { c' with skipper := some s, skipping := true } :=
      ⟨rfl, rfl, hc.noCase, hc.tracking, hc.injected⟩
    exact h L (.skipWith s p c) hother hl st u hst
  | noCase p =>
    have hblind : Ctx.Kindred { c with noCase := true } { c' with noCase := true } :=
      ⟨hc.skipper, hc.skipping, rfl, hc.tracking, hc.injected⟩
    exact below List.mem_cons_self hblind (.noCase c true) st u hst
  | bind key b p =>
    refine bind_keeps (fun bound bound' => ?_) b st u hst
    exact below List.mem_cons_self
      ⟨hc.skipper, hc.skipping, hc.noCase, hc.tracking, hc.injected⟩ (.bind c key bound)
  | hide key p =>
    have hhidden : Ctx.Kindred { c with chain := .hide key :: c.chain }
        { c' with chain := .hide key :: c'.chain } :=
      ⟨hc.skipper, hc.skipping, hc.noCase, hc.tracking, hc.injected⟩
    exact below List.mem_cons_self hhidden (.hide c key) st u hst
  | rule r =>
    simp only [step, rule, hc.injected]
    cases hd : (c.chain.injected? r.name).or (env.rules r.name) with
    | none => exact .stopped rfl
    | some d =>
      apply call_keeps hg (hskip _ _ hc.outsideRules rfl) _ st u hst
      exact h _ (.rule hd (.varTy c _))
        ⟨hc.skipper, hc.skipping, hc.noCase, hc.tracking, hc.injected⟩ hl
  | define r force body =>
    have hin := hc.outsideRules.inject r.name ⟨body, force⟩
    apply call_keeps (d := ⟨body, force⟩) hg (hskip _ _ hin rfl) _ st u hst
    exact h _ (.define (.varTy (c.inject _ _) _))
      ⟨hin.skipper, hin.skipping, hin.noCase, hin.tracking, hin.injected⟩ hl
  | group p => exact part List.mem_cons_self st u hst
  | «sealed» hasAction p => exact part List.mem_cons_self st u hst

end Node

/-! ## Whole parses -/

/-- A parser that remembers nothing comes to the same from two states at one place. -/
theorem parse_keeps (env : Env) (n : Nat) {g : Grammar} {c c' : Ctx} (hg : Forgets env g c)
    (hc : c.Kindred c') {L : Ledger} (hl : L.Level c) :
    L.Simulates (parse env n g c) (parse env n g c') := by
  -- on the fuel: what a node runs has one level less
  induction n generalizing g c c' L with
  | zero =>
    intro st u h
    exact .stopped rfl
  | succ n ih =>
    intro st u h
    rw [parse_succ, parse_succ]
    apply Node.step_keeps hc hl (hg g c (.here g c)) _ st u h
    intro moved q d d' L' hruns hd hl'
    exact ih (fun q' d'' hq' => hg q' d'' (.next hruns hq')) hd hl'

/-- What the two parses hold in two states. -/
def Ledger.of (st u : State) : Ledger := ⟨st.ruleVar, u.ruleVar, st.failure, u.failure⟩

section Answers

variable {env : Env} {g q : Grammar} {c c' ctx ctx' : Ctx} {st u : State}

/-- A parser that remembers nothing answers the same at one place, whatever the states hold there,
    as long as a failure is pending in both or in neither. -/
theorem Answers.keeps {o : Outcome} (h : Answers env g c st o) (hg : Forgets env g c)
    (hc : c.Kindred c') (hcursor : u.cursor = st.cursor) (hl : (Ledger.of st u).Level c) :
    ∃ o', Answers env g c' u o' ∧ (Ledger.of st u).Ends o o' := by
  obtain ⟨ho, n, rfl⟩ := h
  have hends := parse_keeps env n hg hc hl st u ⟨hcursor, rfl, rfl, rfl, rfl⟩
  refine ⟨_, ⟨?_, n, rfl⟩, hends⟩
  -- both have fuel enough, or neither has
  rintro ⟨hlt, he, hspent⟩
  rw [he] at hends
  generalize parse env n g c st = o at ho hends
  cases hends with
  | stopped hwhy => exact ho (Outcome.spent_stopped.mpr (hwhy.symm.trans hspent))

theorem Answers.matched_there {v : Value} {st' : State} (h : Answers env g c st (.matched v st'))
    (hg : Forgets env g c) (hc : c.Kindred c') (hcursor : u.cursor = st.cursor)
    (hl : (Ledger.of st u).Level c) :
    ∃ u', Answers env g c' u (.matched v u') ∧ u'.cursor = st'.cursor := by
  obtain ⟨o', ho', hends⟩ := h.keeps hg hc hcursor hl
  cases hends with
  | matched v hat => exact ⟨_, ho', hat.cursor⟩

theorem Answers.failed_there {st' : State} (h : Answers env g c st (.failed st'))
    (hg : Forgets env g c) (hc : c.Kindred c') (hcursor : u.cursor = st.cursor)
    (hl : (Ledger.of st u).Level c) : ∃ u', Answers env g c' u (.failed u') := by
  obtain ⟨o', ho', hends⟩ := h.keeps hg hc hcursor hl
  cases hends with
  | failed hat => exact ⟨_, ho'⟩

/-! ## Grammars without memory -/

/-- A parser remembers nothing if no node does: of its grammar, of the skipper in force, and of the
    bodies of rules. -/
theorem Forgets.of_nodes (hg : g.All (·.Forgetful ctx))
    (henv : ∀ name d, env.rules name = some d → d.body.All (·.Forgetful ctx))
    (hskipper : ∀ s, ctx.skipper = some s → s.All (·.Forgetful ctx))
    (hinjected : ∀ name d, ctx.chain.injected? name = some d → d.body.All (·.Forgetful ctx)) :
    Forgets env g ctx := by
  intro q c hq
  have hnode := hq.under
    (D := .every (·.Forgetful ctx) (·.All (·.Forgetful ctx))
      fun s p h => h.child List.mem_cons_self)
    (fun r d _ hd => henv r.name d hd) (fun _ hs => hs) hg ⟨hskipper, hinjected⟩
  have hself : q.Forgetful ctx := Grammar.All.self hnode
  cases q with
  | expect p => exact hq.untracked hself
  | eps cond => cases cond <;> exact hself
  | _ => exact hself

/-- Where failures are not tracked, a parser remembers nothing if all nodes are plain. -/
theorem Forgets.of_isPlain (ht : ctx.tracking = false) (hg : g.All (·.isPlain = true))
    (henv : ∀ name d, env.rules name = some d → d.body.All (·.isPlain = true))
    (hskipper : ∀ s, ctx.skipper = some s → s.All (·.isPlain = true))
    (hinjected : ∀ name d, ctx.chain.injected? name = some d → d.body.All (·.isPlain = true)) :
    Forgets env g ctx := by
  have hplain (q : Grammar) (hq : q.isPlain = true) : q.Forgetful ctx := .of_isPlain hq ht
  apply Forgets.of_nodes (hg.mono hplain)
  · intro name d hd
    exact (henv name d hd).mono hplain
  · intro s hs
    exact (hskipper s hs).mono hplain
  · intro name d hd
    exact (hinjected name d hd).mono hplain

end Answers

end Peg
