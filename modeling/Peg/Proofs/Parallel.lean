/-
  Peg.Proofs.Parallel

  Two parses in parallel, each with its own text, context and cursor. What is left
  of the texts corresponds character by character, the second text may have more
  before the cursor, and the values that the parses come to are the same or do not
  matter. From states that stand beside each other two parsers end alike, in
  states that stand beside each other again. Every kind of node passes this on from
  its parts; what is left to show for a pair of parses is what it asks of nodes and
  contexts, that terminals take equally many bytes, and what the skippers do.
-/
import Mathlib.Data.List.Forall2
import Peg.Proofs.Lockstep

namespace Peg

open Text

/-- The failure, so many bytes later. -/
def Failure.later (n : Nat) (f : Failure) : Failure := { f with position := f.position + n }

/-- The later record of later failures. -/
theorem Failure.record_later (n : Nat) (stored : Option Failure) (f : Failure) :
    record (stored.map (·.later n)) (f.later n) = (record stored f).map (·.later n) := by
  cases stored with
  | none => rfl
  | some g =>
    by_cases hlt : f.position < g.position
    · have hlt' : f.position + n < g.position + n := Nat.add_lt_add_right hlt n
      simp [record, shadowed, later, hlt, hlt']
    · have hlt' : ¬ f.position + n < g.position + n := fun h => hlt (Nat.lt_of_add_lt_add_right h)
      simp [record, shadowed, later, hlt, hlt']

/-! ## Side by side -/

/-- How two parses stand to each other. -/
structure Parallel where
  env : Env
  env' : Env
  /-- the second text has so many bytes more before each place -/
  shift : Nat
  /-- what can stand at the same place of the two texts -/
  chars : Char → Char → Prop
  /-- the parses come to the same values -/
  sameValues : Prop
  /-- the second parse need not follow where the first one halts so -/
  lost : Halt → Prop
  rules_eq : env'.rules = env.rules
  length_eq : env'.length = env.length + shift
  size_eq : ∀ {c c' : Char}, chars c c' → c'.utf8Size = c.utf8Size
  chars_eq : sameValues → ∀ {c c' : Char}, chars c c' → c' = c

namespace Parallel

/-- The cursors stand at the same place of the two texts. -/
structure At (P : Parallel) (c c' : Cursor) : Prop where
  inside : c.In P.env.source
  offset : c'.offset = c.offset + P.shift
  rest : List.Forall₂ P.chars c.rest c'.rest

/-- The values are the same, if this is asked. -/
def Values (P : Parallel) (v w : Value) : Prop := P.sameValues → w = v

/-- The states are the same but for the journal, the place in the text, which the failure on record
    shares, and the value of the rule variable, if values may differ. -/
inductive Beside (P : Parallel) (st : State) : State → Prop where
  | intro (cursor : Cursor) (ruleVar : Value) (journal : List Incident)
      (hc : P.At st.cursor cursor) (hv : P.Values st.ruleVar ruleVar) :
      P.Beside st
        { st with cursor, ruleVar, journal, failure := st.failure.map (·.later P.shift) }

/-- The parsers end alike, in states that stand beside each other. -/
inductive Ends (P : Parallel) : Outcome → Outcome → Prop where
  | matched {v w : Value} {st u : State} (hv : P.Values v w) (h : P.Beside st u) :
      P.Ends (.matched v st) (.matched w u)
  | failed {st u : State} (h : P.Beside st u) : P.Ends (.failed st) (.failed u)
  | stopped {why : Stop} {st u : State} (h : P.Beside st u) :
      P.Ends (.stopped ⟨why, st⟩) (.stopped ⟨why, u⟩)
  | lost {hlt : Halt} {o : Outcome} (h : P.lost hlt) : P.Ends (.stopped hlt) o

/-- The same for computations that end well or halt. -/
inductive Settle (P : Parallel) {α : Type} (R : α → α → Prop) :
    Except Halt α → Except Halt α → Prop where
  | ok {a b : α} (h : R a b) : P.Settle R (.ok a) (.ok b)
  | error {why : Stop} {st u : State} (h : P.Beside st u) :
      P.Settle R (.error ⟨why, st⟩) (.error ⟨why, u⟩)
  | lost {hlt : Halt} {o : Except Halt α} (h : P.lost hlt) : P.Settle R (.error hlt) o

/-- From states beside each other the parsers end alike. -/
def Simulates (P : Parallel) (p p' : Step) : Prop :=
  ∀ st u, P.Beside st u → P.Ends (p st) (p' u)

/-- The same for what is done before a parser. -/
def Leads (P : Parallel) (s s' : State → Except Halt State) : Prop :=
  ∀ st u, P.Beside st u → P.Settle P.Beside (s st) (s' u)

variable {P : Parallel}

/-! ## Cursors -/

theorem Values.refl (v : Value) : P.Values v v := fun _ => rfl

/-- Whatever is made of the values in the same way. -/
theorem Values.map {v w : Value} (h : P.Values v w) (f : Value → Value) :
    P.Values (f v) (f w) := fun hv => congrArg f (h hv)

/-- Texts beside each other are the same, if values are to be. -/
theorem text_eq (hv : P.sameValues) {t t' : Text} (h : List.Forall₂ P.chars t t') : t' = t := by
  induction h with
  | nil => rfl
  | cons hx _ ih => rw [P.chars_eq hv hx, ih]

/-- Dropping bytes keeps what is left beside each other. -/
theorem dropBytes?_beside {t t' r : Text} {n : Nat} (h : List.Forall₂ P.chars t t')
    (hr : dropBytes? t n = some r) :
    ∃ r', dropBytes? t' n = some r' ∧ List.Forall₂ P.chars r r' := by
  induction h generalizing n with
  | nil =>
    cases n with
    | zero =>
      rw [dropBytes?_zero] at hr
      cases hr
      exact ⟨[], dropBytes?_zero _, .nil⟩
    | succ n => cases hr
  | @cons c c' t t' hc ht ih =>
    cases n with
    | zero =>
      rw [dropBytes?_zero] at hr
      cases hr
      exact ⟨c' :: t', dropBytes?_zero _, .cons hc ht⟩
    | succ n =>
      have hsize := P.size_eq hc
      rw [dropBytes?] at hr
      rw [dropBytes?, hsize]
      split at hr
      · rename_i hle
        rw [if_pos hle]
        exact ih hr
      · cases hr

namespace At

variable {c c' : Cursor}

/-- Moving over the same bytes, which end on a boundary. -/
theorem advance (h : P.At c c') {n : Nat} (hn : c.rest.IsBoundary n) :
    ∃ d d', c.advance? n = some d ∧ c'.advance? n = some d' ∧ P.At d d' := by
  obtain ⟨d, hd, hin, ho⟩ := h.inside.advance? hn
  rw [Cursor.advance?] at hd
  obtain ⟨r, hr, rfl⟩ := Option.map_eq_some_iff.mp hd
  obtain ⟨r', hr', hrest⟩ := dropBytes?_beside h.rest hr
  refine ⟨⟨c.offset + n, r⟩, ⟨c'.offset + n, r'⟩, ?_, ?_, hin, ?_, hrest⟩
  · rw [Cursor.advance?, hr]
    rfl
  · rw [Cursor.advance?, hr']
    rfl
  · have hoff := h.offset
    show c'.offset + n = c.offset + n + P.shift
    omega

/-- Moving over one character. -/
theorem next {offset offset' : Nat} {x x' : Char} {r r' : Text}
    (h : P.At ⟨offset, x :: r⟩ ⟨offset', x' :: r'⟩) :
    P.At ⟨offset + x.utf8Size, r⟩ ⟨offset' + x'.utf8Size, r'⟩ := by
  have hoff : offset' = offset + P.shift := h.offset
  have hrest : List.Forall₂ P.chars (x :: r) (x' :: r') := h.rest
  obtain ⟨hx, hr⟩ := List.forall₂_cons.mp hrest
  have hsize := P.size_eq hx
  refine ⟨h.inside.next, ?_, hr⟩
  show offset' + x'.utf8Size = offset + x.utf8Size + P.shift
  omega

/-- The same text is left, if values are to be the same. -/
theorem rest_eq (h : P.At c c') (hv : P.sameValues) : c'.rest = c.rest := text_eq hv h.rest

end At

/-! ## States -/

namespace Beside

variable {st u st1 u1 : State}

theorem cursor (h : P.Beside st u) : P.At st.cursor u.cursor := by
  obtain ⟨cursor, ruleVar, journal, hc, hv⟩ := h
  exact hc

theorem offset (h : P.Beside st u) : u.offset = st.offset + P.shift := h.cursor.offset

theorem ruleVar (h : P.Beside st u) : P.Values st.ruleVar u.ruleVar := by
  obtain ⟨cursor, ruleVar, journal, hc, hv⟩ := h
  exact hv

theorem failure (h : P.Beside st u) : u.failure = st.failure.map (·.later P.shift) := by
  obtain ⟨cursor, ruleVar, journal, hc, hv⟩ := h
  rfl

/-- Both parses have moved since the first states, or neither has. -/
theorem moved_iff (h : P.Beside st u) (h1 : P.Beside st1 u1) :
    u1.offset = u.offset ↔ st1.offset = st.offset := by
  have ho := h.offset
  have ho1 := h1.offset
  omega

/-- As many bytes were taken in both parses. -/
theorem taken_eq (h : P.Beside st u) (h1 : P.Beside st1 u1) :
    u1.offset - u.offset = st1.offset - st.offset := by
  have ho := h.offset
  have ho1 := h1.offset
  omega

/-- A failure is pending in both parses or in neither. -/
theorem pending (h : P.Beside st u) {c c' : Ctx} (ht : c'.tracking = c.tracking) :
    u.pending c' = st.pending c := by
  rw [State.pending, State.pending, ht, h.failure, Option.isSome_map]

/-- As many rounds are left. -/
theorem rounds_eq (h : P.Beside st u) : Node.rounds P.env' u = Node.rounds P.env st := by
  have ho := h.offset
  have hlen := P.length_eq
  rw [Node.rounds, Node.rounds]
  omega

theorem moveTo (h : P.Beside st u) {c c' : Cursor} (hc : P.At c c') :
    P.Beside (st.moveTo c) (u.moveTo c') := by
  obtain ⟨cursor, ruleVar, journal, -, hv⟩ := h
  exact .intro c' ruleVar journal hc hv

theorem mark (h : P.Beside st u) (i i' : Incident) : P.Beside (st.mark i) (u.mark i') := by
  obtain ⟨cursor, ruleVar, journal, hc, hv⟩ := h
  exact .intro cursor ruleVar (i' :: journal) hc hv

theorem withVar (h : P.Beside st u) {v w : Value} (hv : P.Values v w) :
    P.Beside { st with ruleVar := v } { u with ruleVar := w } := by
  obtain ⟨cursor, ruleVar, journal, hc, -⟩ := h
  exact .intro cursor w journal hc hv

theorem record (h : P.Beside st u) (which : String) :
    P.Beside (st.record ⟨st.offset, which⟩) (u.record ⟨u.offset, which⟩) := by
  have ho := h.offset
  obtain ⟨cursor, ruleVar, journal, hc, hv⟩ := h
  have hrecord := Failure.record_later P.shift st.failure ⟨st.offset, which⟩
  simp only [State.record]
  rw [ho]
  have hf : (⟨st.offset + P.shift, which⟩ : Failure) = Failure.later P.shift ⟨st.offset, which⟩ :=
    rfl
  rw [hf, hrecord]
  exact .intro cursor ruleVar _ hc hv

theorem openCell (h : P.Beside st u) (id : Nat) (v : Value) :
    P.Beside (st.openCell id v) (u.openCell id v) := by
  obtain ⟨cursor, ruleVar, journal, hc, hv⟩ := h
  simp only [State.openCell]
  split <;> exact .intro cursor ruleVar journal hc hv

/-- A condition holds in both parses or in neither. -/
theorem condition (h : P.Beside st u) (c : Condition) :
    (Node.condition c u).1 = (Node.condition c st).1 ∧
      P.Beside (Node.condition c st).2 (Node.condition c u).2 := by
  obtain ⟨cursor, ruleVar, journal, hc, hv⟩ := h
  cases c <;> exact ⟨rfl, .intro cursor ruleVar journal hc hv⟩

theorem pushLocal (h : P.Beside st u) (v : Value) :
    P.Beside { st with locals := v :: st.locals } { u with locals := v :: u.locals } := by
  obtain ⟨cursor, ruleVar, journal, hc, hv⟩ := h
  exact .intro cursor ruleVar journal hc hv

theorem dropLocal (h : P.Beside st u) :
    P.Beside { st with locals := st.locals.drop 1 } { u with locals := u.locals.drop 1 } := by
  obtain ⟨cursor, ruleVar, journal, hc, hv⟩ := h
  exact .intro cursor ruleVar journal hc hv

end Beside

/-! ## Outcomes -/

theorem Ends.cases {o o' : Outcome} {hit hit' : Value → State → Outcome}
    {miss miss' : State → Outcome} (h : P.Ends o o')
    (hhit : ∀ v w st u, P.Values v w → P.Beside st u → P.Ends (hit v st) (hit' w u))
    (hmiss : ∀ st u, P.Beside st u → P.Ends (miss st) (miss' u)) :
    P.Ends (o.cases hit miss) (o'.cases hit' miss') := by
  cases h with
  | matched hv h => exact hhit _ _ _ _ hv h
  | failed h => exact hmiss _ _ h
  | stopped h => exact .stopped h
  | lost h => exact .lost h

/-- A change of the value and nothing else. -/
theorem Ends.map {o o' : Outcome} (h : P.Ends o o') (f : Value → Value) :
    P.Ends (o.cases (fun v st => .matched (f v) st) .failed)
      (o'.cases (fun v st => .matched (f v) st) .failed) := by
  apply h.cases
  · intro v w st u hv h1
    exact .matched (hv.map f) h1
  · intro st u h1
    exact .failed h1

theorem Ends.mapState {o o' : Outcome} (h : P.Ends o o') {g g' : State → State}
    (hg : ∀ st u, P.Beside st u → P.Beside (g st) (g' u)) :
    P.Ends (Node.mapState g o) (Node.mapState g' o') := by
  cases h with
  | matched hv h => exact .matched hv (hg _ _ h)
  | failed h => exact .failed (hg _ _ h)
  | stopped h => exact .stopped h
  | lost h => exact .lost h

theorem Settle.afterSkip {o o' : Except Halt State} {k k' : Step} (h : P.Settle P.Beside o o')
    (hk : ∀ st u, P.Beside st u → P.Ends (k st) (k' u)) :
    P.Ends (Node.afterSkip o k) (Node.afterSkip o' k') := by
  cases h with
  | ok h => exact hk _ _ h
  | error h => exact .stopped h
  | lost h => exact .lost h

end Parallel

/-! ## Loops -/

namespace Node

open Parallel (At Values Beside Ends Settle Simulates Leads)

variable {P : Parallel} {c c' : Ctx} {p p' q q' : Step}

theorem skipLoop_settle (hp : P.Simulates p p') (n : Nat) (st u : State) (h : P.Beside st u) :
    P.Settle P.Beside (skipLoop p n st) (skipLoop p' n u) := by
  induction n generalizing st u with
  | zero => exact .error h
  | succ n ih =>
    have h1 := hp st u h
    rw [skipLoop, skipLoop]
    revert h1
    generalize p st = o
    generalize p' u = o'
    intro h1
    cases h1 with
    | matched hv h1 =>
      simp only [h.moved_iff h1]
      split
      · exact .ok h1
      · exact ih _ _ h1
    | failed h1 => exact .ok h1
    | stopped h1 => exact .error h1
    | lost hl => exact .lost hl

/-- What loops have come to: equally many values, and states beside each other. -/
structure Gathered (P : Parallel) (r r' : List Value × State) : Prop where
  length : r'.1.length = r.1.length
  values : P.sameValues → r'.1 = r.1
  state : P.Beside r.2 r'.2

theorem Gathered.cons {vs ws : List Value} {st u st1 u1 : State} {v w : Value}
    (h : Gathered P (vs, st) (ws, u)) (hv : P.Values v w) (h1 : P.Beside st1 u1) :
    Gathered P (v :: vs, st1) (w :: ws, u1) := by
  refine ⟨congrArg (· + 1) h.length, fun hsame => ?_, h1⟩
  show w :: ws = v :: vs
  rw [hv hsame, show ws = vs from h.values hsame]

theorem Gathered.to {vs ws : List Value} {st u st1 u1 : State}
    (h : Gathered P (vs, st) (ws, u)) (h1 : P.Beside st1 u1) :
    Gathered P (vs, st1) (ws, u1) := ⟨h.length, h.values, h1⟩

section Loops

variable (hp : P.Simulates p p')

include hp

theorem repeatLoop_settle (n : Nat) (vs ws : List Value) (st u : State)
    (h : Gathered P (vs, st) (ws, u)) :
    P.Settle (Gathered P) (repeatLoop p n vs st) (repeatLoop p' n ws u) := by
  induction n generalizing vs ws st u with
  | zero => exact .error h.state
  | succ n ih =>
    have h1 := hp st u h.state
    rw [repeatLoop, repeatLoop]
    revert h1
    generalize p st = o
    generalize p' u = o'
    intro h1
    cases h1 with
    | matched hv h1 =>
      simp only [h.state.moved_iff h1]
      split
      · exact .ok (h.cons hv h1)
      · exact ih _ _ _ _ (h.cons hv h1)
    | failed h1 => exact .ok (h.to h1)
    | stopped h1 => exact .error h1
    | lost hl => exact .lost hl

theorem repeatUpTo_settle (n : Nat) (vs ws : List Value) (st u : State)
    (h : Gathered P (vs, st) (ws, u)) :
    P.Settle (Gathered P) (repeatUpTo p n vs st) (repeatUpTo p' n ws u) := by
  induction n generalizing vs ws st u with
  | zero => exact .ok h
  | succ n ih =>
    have h1 := hp st u h.state
    rw [repeatUpTo, repeatUpTo]
    revert h1
    generalize p st = o
    generalize p' u = o'
    intro h1
    cases h1 with
    | matched hv h1 => exact ih _ _ _ _ (h.cons hv h1)
    | failed h1 => exact .ok (h.to h1)
    | stopped h1 => exact .error h1
    | lost hl => exact .lost hl

theorem listLoop_settle (hq : P.Simulates q q') (n : Nat) (vs ws : List Value) (st u : State)
    (h : Gathered P (vs, st) (ws, u)) :
    P.Settle (Gathered P) (listLoop p q n vs st) (listLoop p' q' n ws u) := by
  induction n generalizing vs ws st u with
  | zero => exact .error h.state
  | succ n ih =>
    have h1 := hq st u h.state
    rw [listLoop, listLoop]
    revert h1
    generalize q st = o
    generalize q' u = o'
    intro h1
    -- a delimiter, and then an element
    cases h1 with
    | @matched _ _ st1 u1 _ h1 =>
      have h2 := hp st1 u1 h1
      dsimp only
      revert h2
      generalize p st1 = o
      generalize p' u1 = o'
      intro h2
      cases h2 with
      | matched hv h2 =>
        simp only [h.state.moved_iff h2]
        split
        · exact .ok (h.cons hv h2)
        · exact ih _ _ _ _ (h.cons hv h2)
      | failed h2 => exact .ok (h.to (h2.moveTo h.state.cursor))
      | stopped h2 => exact .error h2
      | lost hl => exact .lost hl
    | failed h1 => exact .ok (h.to h1)
    | stopped h1 => exact .error h1
    | lost hl => exact .lost hl

theorem seekLoop_ends (ht : c'.tracking = c.tracking) {start start' : Cursor}
    (hstart : P.At start start') (rest rest' : Text) (offset offset' : Nat) (st u : State)
    (hat : P.At ⟨offset, rest⟩ ⟨offset', rest'⟩) (h : P.Beside st u) :
    P.Ends (seekLoop (·.pending c) p start offset rest st)
      (seekLoop (·.pending c') p' start' offset' rest' u) := by
  induction rest generalizing rest' offset offset' st u with
  | nil =>
    obtain rfl : rest' = [] := List.forall₂_nil_left_iff.mp hat.rest
    have h1 := hp _ _ (h.moveTo hat)
    rw [seekLoop, seekLoop]
    revert h1
    generalize p (st.moveTo ⟨offset, []⟩) = o
    generalize p' (u.moveTo ⟨offset', []⟩) = o'
    intro h1
    cases h1 with
    | matched hv h1 => exact .matched hv h1
    | failed h1 =>
      simp only [ite_self]
      exact .failed (h1.moveTo hstart)
    | stopped h1 => exact .stopped h1
    | lost hl => exact .lost hl
  | cons x r ih =>
    obtain ⟨x', r', hx, hr, rfl⟩ := List.forall₂_cons_left_iff.mp hat.rest
    have h1 := hp _ _ (h.moveTo hat)
    rw [seekLoop, seekLoop]
    revert h1
    generalize p (st.moveTo ⟨offset, x :: r⟩) = o
    generalize p' (u.moveTo ⟨offset', x' :: r'⟩) = o'
    intro h1
    cases h1 with
    | matched hv h1 => exact .matched hv h1
    | failed h1 =>
      simp only [h1.pending ht]
      split
      · exact .failed (h1.moveTo hstart)
      · exact ih _ _ _ _ _ hat.next h1
    | stopped h1 => exact .stopped h1
    | lost hl => exact .lost hl

end Loops

theorem endRepeat_ends {t : Ty} {min : Nat} {start start' : Cursor}
    {o o' : Except Halt (List Value × State)} (ht : c'.tracking = c.tracking)
    (hstart : P.At start start') (h : P.Settle (Gathered P) o o') :
    P.Ends (endRepeat c t min start o) (endRepeat c' t min start' o') := by
  cases h with
  | @ok r r' h =>
    obtain ⟨vs, st⟩ := r
    obtain ⟨ws, u⟩ := r'
    have hlen : ws.length = vs.length := h.length
    have hstate : P.Beside st u := h.state
    simp only [endRepeat, hlen, hstate.pending ht]
    split
    · exact .failed (hstate.moveTo hstart)
    · refine .matched (fun hsame => ?_) hstate
      rw [show ws = vs from h.values hsame]
  | error h => exact .stopped h
  | lost h => exact .lost h

theorem times_ends (ht : c'.tracking = c.tracking) (hp : P.Simulates p p') (t : Ty) (min : Nat)
    (max : Option Nat) (st u : State) (h : P.Beside st u) :
    P.Ends (times P.env c t min max p st) (times P.env' c' t min max p' u) := by
  have hnone : Gathered P ([], st) ([], u) := ⟨rfl, fun _ => rfl, h⟩
  cases max with
  | none =>
    apply endRepeat_ends ht h.cursor
    simp only [h.rounds_eq]
    exact repeatLoop_settle hp _ _ _ _ _ hnone
  | some n => exact endRepeat_ends ht h.cursor (repeatUpTo_settle hp n _ _ _ _ hnone)

theorem list_ends (ht : c'.tracking = c.tracking) (hp : P.Simulates p p')
    (hq : P.Simulates q q') (t : Ty) (st u : State) (h : P.Beside st u) :
    P.Ends (list P.env c t p q st) (list P.env' c' t p' q' u) := by
  apply (hp st u h).cases
  · intro v w st1 u1 hv h1
    have hone : Gathered P ([v], st1) ([w], u1) := by
      refine ⟨rfl, fun hsame => ?_, h1⟩
      show [w] = [v]
      rw [hv hsame]
    apply endRepeat_ends ht h.cursor
    rw [h1.rounds_eq]
    exact listLoop_settle hp hq _ _ _ _ _ hone
  · intro st1 u1 h1
    exact .failed h1

theorem seqLoop_ends {run run' : Grammar → Step} {start start' : Cursor}
    (hstart : P.At start start') (ps : List Grammar)
    (h : ∀ p ∈ ps, P.Simulates (run p) (run' p)) (slots slots' : List Value)
    (hslots : P.sameValues → slots' = slots) (st u : State) (hst : P.Beside st u) :
    P.Ends (seqLoop run start ps slots st) (seqLoop run' start' ps slots' u) := by
  induction ps generalizing slots slots' st u with
  | nil =>
    refine .matched (fun hsame => ?_) hst
    rw [hslots hsame]
  | cons p ps ih =>
    rw [seqLoop, seqLoop]
    apply (h p List.mem_cons_self st u hst).cases
    · intro v w st1 u1 hv h1
      refine ih (fun q hq => h q (List.mem_cons_of_mem _ hq)) _ _ (fun hsame => ?_) st1 u1 h1
      rw [hslots hsame, hv hsame]
    · intro st1 u1 h1
      exact .failed (h1.moveTo hstart)

end Node

end Peg
