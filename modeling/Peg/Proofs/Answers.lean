/-
  Peg.Proofs.Answers

  What a parser answers is what it comes to once it has fuel enough; a halt for
  want of fuel is no answer. A node looks at finitely many outcomes of the parsers
  below it, so that its answer is that of a step over their answers: the answers
  are a fixed point of the table of node behaviours. Statements about them do not
  mention fuel, and parsers of different depth can be compared.
-/
import Mathlib.Order.Filter.AtTopBot.Basic
import Peg.Proofs.Approximation

namespace Peg

open Filter

/-! ## Answers -/

/-- A halt for want of fuel. -/
def Outcome.Spent (o : Outcome) : Prop := ∃ h, o = .stopped h ∧ h.Spent

@[simp] theorem Outcome.not_spent_matched (v : Value) (st : State) :
    ¬ (Outcome.matched v st).Spent := by
  rintro ⟨hlt, he, -⟩
  cases he

@[simp] theorem Outcome.not_spent_failed (st : State) : ¬ (Outcome.failed st).Spent := by
  rintro ⟨hlt, he, -⟩
  cases he

@[simp] theorem Outcome.spent_stopped {h : Halt} : (Outcome.stopped h).Spent ↔ h.Spent := by
  constructor
  · rintro ⟨hlt, he, hs⟩
    cases he
    exact hs
  · intro hs
    exact ⟨h, rfl, hs⟩

/-- The parser comes to this outcome if it has fuel enough. -/
def Answers (env : Env) (g : Grammar) (ctx : Ctx) (st : State) (o : Outcome) : Prop :=
  ¬ o.Spent ∧ ∃ n, parse env n g ctx st = o

open Classical in
/-- The answer of a parser, or else a halt for want of fuel. -/
noncomputable def answer (env : Env) (g : Grammar) (ctx : Ctx) : Step := fun st =>
  if h : ∃ o, Answers env g ctx st o then h.choose else .stopped ⟨.exhausted, st⟩

theorem Outcome.Below.eq {o o' : Outcome} (h : o.Below Halt.Spent o') (ho : ¬ o.Spent) : o = o' :=
  h.eq_of_not fun hlt he hs => ho ⟨hlt, he, hs⟩

/-- A parser has one answer. -/
theorem Answers.unique {env : Env} {g : Grammar} {ctx : Ctx} {st : State} {o o' : Outcome}
    (h : Answers env g ctx st o) (h' : Answers env g ctx st o') : o = o' := by
  obtain ⟨ho, n, hn⟩ := h
  obtain ⟨ho', m, hm⟩ := h'
  -- what is answered with less fuel is kept with more
  obtain hle | hle := Nat.le_total n m
  · have hbelow := parse_below env hle g ctx st
    rw [hn, hm] at hbelow
    exact hbelow.eq ho
  · have hbelow := parse_below env hle g ctx st
    rw [hn, hm] at hbelow
    exact (hbelow.eq ho').symm

section Answer

variable (env : Env) (g : Grammar) (ctx : Ctx) (st : State)

theorem parse_below_answer (n : Nat) :
    (parse env n g ctx st).Below Halt.Spent (answer env g ctx st) := by
  by_cases hs : (parse env n g ctx st).Spent
  · exact .inr hs
  · have hn : Answers env g ctx st (parse env n g ctx st) := ⟨hs, n, rfl⟩
    have hex : ∃ o, Answers env g ctx st o := ⟨_, hn⟩
    left
    rw [answer, dif_pos hex]
    exact hn.unique hex.choose_spec

theorem answers_iff (o : Outcome) :
    Answers env g ctx st o ↔ ¬ o.Spent ∧ answer env g ctx st = o := by
  constructor
  · rintro ⟨ho, n, rfl⟩
    exact ⟨ho, ((parse_below_answer env g ctx st n).eq ho).symm⟩
  · rintro ⟨ho, rfl⟩
    by_cases hex : ∃ o, Answers env g ctx st o
    · rw [answer, dif_pos hex]
      exact hex.choose_spec
    · rw [answer, dif_neg hex] at ho
      exact absurd ⟨_, rfl, rfl⟩ ho

end Answer

theorem answers_matched_iff {env : Env} {g : Grammar} {ctx : Ctx} {st st' : State} {v : Value} :
    Answers env g ctx st (.matched v st') ↔ answer env g ctx st = .matched v st' := by
  rw [answers_iff]
  exact and_iff_right (Outcome.not_spent_matched v st')

theorem answers_failed_iff {env : Env} {g : Grammar} {ctx : Ctx} {st st' : State} :
    Answers env g ctx st (.failed st') ↔ answer env g ctx st = .failed st' := by
  rw [answers_iff]
  exact and_iff_right (Outcome.not_spent_failed st')

/-- What the one answers the other answers too, as far as `R` says, and neither answers without the
    other. -/
def Corresponds (R : Outcome → Outcome → Prop) (A A' : Outcome → Prop) : Prop :=
  (∀ o, A o → ∃ o', A' o' ∧ R o o') ∧ ∀ o', A' o' → ∃ o, A o ∧ R o o'

/-! ## Finitely many looks -/

/-- With more and more fuel the results come to `b`, or `b` is for want of fuel, as `S` says. -/
def Reaches {β : Type} (S : β → Prop) (f : Nat → β) (b : β) : Prop :=
  S b ∨ ∀ᶠ n in atTop, f n = b

/-- A computation that ends for want of fuel. -/
def ExceptSpent {α : Type} (o : Except Halt α) : Prop := ∃ h, o = .error h ∧ h.Spent

/-- The outcome apart by the way it ends. -/
def Outcome.elim {β : Type} (o : Outcome) (hit : Value → State → β) (miss : State → β)
    (stop : Halt → β) : β :=
  match o with
  | .matched v st => hit v st
  | .failed st => miss st
  | .stopped h => stop h

namespace Reaches

variable {β : Type} {S : β → Prop}

theorem const (b : β) : Reaches S (fun _ => b) b := .inr (Eventually.of_forall fun _ => rfl)

/-- What is made of an outcome that is come to. -/
theorem elim {f : Nat → Outcome} {o : Outcome} {hit : Nat → Value → State → β}
    {hit' : Value → State → β} {miss : Nat → State → β} {miss' : State → β} {stop : Halt → β}
    (h : Reaches Outcome.Spent f o) (hhit : ∀ v st, Reaches S (hit · v st) (hit' v st))
    (hmiss : ∀ st, Reaches S (miss · st) (miss' st)) (hstop : ∀ hlt, hlt.Spent → S (stop hlt)) :
    Reaches S (fun n => (f n).elim (hit n) (miss n) stop) (o.elim hit' miss' stop) := by
  obtain ⟨hlt, rfl, hs⟩ | hf := h
  · exact .inl (hstop hlt hs)
  · have hrest : Reaches S (fun n => o.elim (hit n) (miss n) stop) (o.elim hit' miss' stop) := by
      cases o with
      | matched v st => exact hhit v st
      | failed st => exact hmiss st
      | stopped hlt => exact const _
    apply hrest.imp_right
    intro hg
    filter_upwards [hf, hg] with n hn hm
    rw [hn]
    exact hm

theorem congr {f f' : Nat → β} {b b' : β} (h : Reaches S f b) (hf : ∀ n, f' n = f n)
    (hb : b' = b) : Reaches S f' b' := by
  obtain rfl : f' = f := funext hf
  rwa [hb]

/-- The same for outcomes, after which a halt is passed on. -/
theorem cases {f : Nat → Outcome} {o : Outcome} {hit : Nat → Value → State → Outcome}
    {hit' : Value → State → Outcome} {miss : Nat → State → Outcome} {miss' : State → Outcome}
    (h : Reaches Outcome.Spent f o)
    (hhit : ∀ v st, Reaches Outcome.Spent (hit · v st) (hit' v st))
    (hmiss : ∀ st, Reaches Outcome.Spent (miss · st) (miss' st)) :
    Reaches Outcome.Spent (fun n => (f n).cases (hit n) (miss n)) (o.cases hit' miss') :=
  h.elim hhit hmiss fun hlt hs => ⟨hlt, rfl, hs⟩

theorem ite {c : Prop} [Decidable c] {f f' : Nat → β} {b b' : β} (h : Reaches S f b)
    (h' : Reaches S f' b') :
    Reaches S (fun n => if c then f n else f' n) (if c then b else b') := by
  split
  · exact h
  · exact h'

end Reaches

namespace Node

variable {p q : Nat → Step} {p' q' : Step}

/-- With more and more fuel the parsers come to a parser. -/
def Approach (p : Nat → Step) (p' : Step) : Prop :=
  ∀ st, Reaches Outcome.Spent (fun n => p n st) (p' st)

section Loops

variable (hp : Approach p p')

include hp

theorem skipLoop_reaches (k : Nat) (st : State) :
    Reaches ExceptSpent (fun n => skipLoop (p n) k st) (skipLoop p' k st) := by
  induction k generalizing st with
  | zero => exact .const _
  | succ k ih =>
    have round (p : Step) : skipLoop p (k + 1) st = (p st).elim
        (fun _ st1 => if st1.offset = st.offset then .ok st1 else skipLoop p k st1) .ok
        .error := by
      rw [skipLoop]
      cases p st <;> rfl
    refine Reaches.congr ?_ (fun n => round (p n)) (round p')
    exact (hp st).elim (fun _ st1 => .ite (.const _) (ih st1)) (fun _ => .const _)
      fun hlt hs => ⟨hlt, rfl, hs⟩

theorem repeatLoop_reaches (k : Nat) (vs : List Value) (st : State) :
    Reaches ExceptSpent (fun n => repeatLoop (p n) k vs st) (repeatLoop p' k vs st) := by
  induction k generalizing vs st with
  | zero => exact .const _
  | succ k ih =>
    have round (p : Step) : repeatLoop p (k + 1) vs st = (p st).elim
        (fun v st1 => if st1.offset = st.offset then .ok (v :: vs, st1)
          else repeatLoop p k (v :: vs) st1)
        (fun st1 => .ok (vs, st1)) .error := by
      rw [repeatLoop]
      cases p st <;> rfl
    refine Reaches.congr ?_ (fun n => round (p n)) (round p')
    exact (hp st).elim (fun _ st1 => .ite (.const _) (ih _ st1)) (fun _ => .const _)
      fun hlt hs => ⟨hlt, rfl, hs⟩

theorem repeatUpTo_reaches (k : Nat) (vs : List Value) (st : State) :
    Reaches ExceptSpent (fun n => repeatUpTo (p n) k vs st) (repeatUpTo p' k vs st) := by
  induction k generalizing vs st with
  | zero => exact .const _
  | succ k ih =>
    have round (p : Step) : repeatUpTo p (k + 1) vs st = (p st).elim
        (fun v st1 => repeatUpTo p k (v :: vs) st1) (fun st1 => .ok (vs, st1)) .error := by
      rw [repeatUpTo]
      cases p st <;> rfl
    refine Reaches.congr ?_ (fun n => round (p n)) (round p')
    exact (hp st).elim (fun _ st1 => ih _ st1) (fun _ => .const _) fun hlt hs => ⟨hlt, rfl, hs⟩

theorem listLoop_reaches (hq : Approach q q') (k : Nat) (vs : List Value) (st : State) :
    Reaches ExceptSpent (fun n => listLoop (p n) (q n) k vs st) (listLoop p' q' k vs st) := by
  induction k generalizing vs st with
  | zero => exact .const _
  | succ k ih =>
    have round (p q : Step) : listLoop p q (k + 1) vs st = (q st).elim
        (fun _ st1 => (p st1).elim
          (fun v st2 => if st2.offset = st.offset then .ok (v :: vs, st2)
            else listLoop p q k (v :: vs) st2)
          (fun st2 => .ok (vs, st2.moveTo st.cursor)) .error)
        (fun st1 => .ok (vs, st1)) .error := by
      rw [listLoop]
      cases q st with
      | matched v st1 =>
        dsimp only [Outcome.elim]
        cases p st1 <;> rfl
      | _ => rfl
    refine Reaches.congr ?_ (fun n => round (p n) (q n)) (round p' q')
    refine (hq st).elim (fun _ st1 => ?_) (fun _ => .const _) fun hlt hs => ⟨hlt, rfl, hs⟩
    exact (hp st1).elim (fun _ st2 => .ite (.const _) (ih _ st2)) (fun _ => .const _)
      fun hlt hs => ⟨hlt, rfl, hs⟩

theorem seekLoop_reaches (pending : State → Bool) (start : Cursor) (offset : Nat) (rest : Text)
    (st : State) :
    Reaches Outcome.Spent (fun n => seekLoop pending (p n) start offset rest st)
      (seekLoop pending p' start offset rest st) := by
  induction rest generalizing offset st with
  | nil =>
    have round (p : Step) : seekLoop pending p start offset [] st =
        (p (st.moveTo ⟨offset, []⟩)).cases .matched fun st1 => .failed (st1.moveTo start) := by
      rw [seekLoop]
      cases p (st.moveTo ⟨offset, []⟩) with
      | failed st1 => exact ite_self _
      | _ => rfl
    refine Reaches.congr ?_ (fun n => round (p n)) (round p')
    exact (hp _).cases (fun _ _ => .const _) (fun _ => .const _)
  | cons c r ih =>
    have round (p : Step) : seekLoop pending p start offset (c :: r) st =
        (p (st.moveTo ⟨offset, c :: r⟩)).cases .matched fun st1 =>
          if pending st1 then .failed (st1.moveTo start)
          else seekLoop pending p start (offset + c.utf8Size) r st1 := by
      rw [seekLoop]
      cases p (st.moveTo ⟨offset, c :: r⟩) <;> rfl
    refine Reaches.congr ?_ (fun n => round (p n)) (round p')
    exact (hp _).cases (fun _ _ => .const _) (fun st1 => .ite (.const _) (ih _ st1))

end Loops

theorem seqLoop_reaches {run : Nat → Grammar → Step} {run' : Grammar → Step}
    (h : ∀ g, Approach (run · g) (run' g)) (start : Cursor) (ps : List Grammar)
    (slots : List Value) (st : State) :
    Reaches Outcome.Spent (fun n => seqLoop (run n) start ps slots st)
      (seqLoop run' start ps slots st) := by
  induction ps generalizing slots st with
  | nil => exact .const _
  | cons p ps ih => exact (h p st).cases (fun _ st1 => ih _ st1) (fun _ => .const _)

theorem afterSkip_reaches {f : Nat → Except Halt State} {o : Except Halt State}
    (h : Reaches ExceptSpent f o) {k : Nat → Step} {k' : Step} (hk : Approach k k') :
    Reaches Outcome.Spent (fun n => afterSkip (f n) (k n)) (afterSkip o k') := by
  obtain ⟨hlt, rfl, hs⟩ | hf := h
  · exact .inl ⟨hlt, rfl, hs⟩
  · have hrest : Reaches Outcome.Spent (fun n => afterSkip o (k n)) (afterSkip o k') := by
      cases o with
      | ok st => exact hk st
      | error hlt => exact .const _
    apply hrest.imp_right
    intro hg
    filter_upwards [hf, hg] with n hn hm
    rw [hn]
    exact hm

theorem endRepeat_reaches {ctx : Ctx} {t : Ty} {min : Nat} {start : Cursor}
    {f : Nat → Except Halt (List Value × State)} {o : Except Halt (List Value × State)}
    (h : Reaches ExceptSpent f o) :
    Reaches Outcome.Spent (fun n => endRepeat ctx t min start (f n))
      (endRepeat ctx t min start o) := by
  obtain ⟨hlt, rfl, hs⟩ | hf := h
  · exact .inl ⟨hlt, rfl, hs⟩
  · right
    filter_upwards [hf] with n hn
    rw [hn]

theorem times_reaches (hp : Approach p p') (env : Env) (ctx : Ctx) (t : Ty) (min : Nat)
    (max : Option Nat) : Approach (fun n => times env ctx t min max (p n))
      (times env ctx t min max p') := by
  intro st
  cases max with
  | none => exact endRepeat_reaches (repeatLoop_reaches hp _ _ _)
  | some k => exact endRepeat_reaches (repeatUpTo_reaches hp _ _ _)

theorem mapState_reaches {f : Nat → Outcome} {o : Outcome} (h : Reaches Outcome.Spent f o)
    (k : State → State) :
    Reaches Outcome.Spent (fun n => mapState k (f n)) (mapState k o) := by
  have parts (o : Outcome) : mapState k o =
      o.cases (fun v st => .matched v (k st)) (fun st => .failed (k st)) := by
    cases o <;> rfl
  refine Reaches.congr ?_ (fun n => parts (f n)) (parts o)
  exact h.cases (fun _ _ => .const _) (fun _ => .const _)

/-! ## Nodes -/

variable {env : Env} {rec : Nat → Grammar → Ctx → Step} {rec' : Grammar → Ctx → Step}

section Nodes

variable (h : ∀ g ctx, Approach (rec · g ctx) (rec' g ctx))

include h

theorem skipOver_reaches (ctx : Ctx) (st : State) :
    Reaches ExceptSpent (fun n => skipOver env (rec n) ctx st) (skipOver env rec' ctx st) := by
  unfold skipOver
  split
  · exact skipLoop_reaches (h _ _) _ _
  · exact .const _

theorem call_reaches (r : Rule) (d : Definition) (ctx : Ctx) :
    Approach (fun n => call env (rec n) r d ctx) (call env rec' r d ctx) := fun st =>
  afterSkip_reaches (skipOver_reaches h ctx st) fun _ =>
    (h _ _ _).cases (fun _ _ => .const _) (fun _ => .const _)

/-- A node run with parsers that come to others comes to the node run with these. -/
theorem step_reaches (g : Grammar) (ctx : Ctx) :
    Approach (fun n => step env (rec n) g ctx) (step env rec' g ctx) := by
  intro st
  have hskip (st : State) : Reaches ExceptSpent (fun n => skipOver env (rec n) ctx st)
      (skipOver env rec' ctx st) := skipOver_reaches h ctx st
  cases g with
  | terminal t => exact afterSkip_reaches (hskip st) fun _ => .const _
  | eps c =>
    exact .ite (afterSkip_reaches (hskip _) fun _ => .const _) (.const _)
  | attr ty v => exact .const _
  | seq ps => exact seqLoop_reaches (fun g => h g ctx) _ _ _ _
  | alt p q =>
    exact (h p ctx st).cases (fun _ _ => .const _) fun st1 =>
      .ite (.const _) ((h q ctx st1).cases (fun _ _ => .const _) fun _ => .const _)
  | diff p q => exact (h q ctx st).cases (fun _ _ => .const _) (h p ctx)
  | list p d =>
    exact (h p ctx st).cases
      (fun _ _ => endRepeat_reaches (listLoop_reaches (h p ctx) (h d ctx) _ _ _))
      fun _ => .const _
  | opt p => exact (h p ctx st).cases (fun _ _ => .const _) fun _ => .const _
  | ahead p => exact (h p ctx st).cases (fun _ _ => .const _) fun _ => .const _
  | notAhead p => exact (h p ctx st).cases (fun _ _ => .const _) fun _ => .const _
  | kleene p => exact times_reaches (h p ctx) env ctx p.ty 0 none st
  | plus p => exact times_reaches (h p ctx) env ctx p.ty 1 none st
  | times min max p => exact times_reaches (h p ctx) env ctx p.ty min max st
  | seek p => exact seekLoop_reaches (h p ctx) _ _ _ _ _
  | expect p =>
    exact (h p ctx st).cases (fun _ _ => .const _) fun st1 =>
      .ite (afterSkip_reaches (hskip st1) fun _ => .const _) (.const _)
  | action p f =>
    exact afterSkip_reaches (hskip st) fun st1 =>
      (h p ctx st1).cases (fun _ _ => .const _) fun _ => .const _
  | raw p =>
    exact afterSkip_reaches (hskip st) fun st1 =>
      (h p ctx st1).cases (fun _ _ => .const _) fun _ => .const _
  | discard p => exact (h p ctx st).cases (fun _ _ => .const _) fun _ => .const _
  | flag p => exact (h p ctx st).cases (fun _ _ => .const _) fun _ => .const _
  | into ty p => exact (h p ctx st).cases (fun _ _ => .const _) fun _ => .const _
  | narrow ty f p => exact (h p ctx st).cases (fun _ _ => .const _) fun _ => .const _
  | lexeme p =>
    exact afterSkip_reaches (hskip st) fun st1 =>
      (h p _ st1).cases (fun _ _ => .const _) fun _ => .const _
  | noSkip p => exact h p _ st
  | skip p => exact h p _ st
  | skipWith s p => exact h p _ st
  | noCase p => exact h p _ st
  | bind key b p =>
    cases b with
    | own v => exact h p _ st
    | annotations => exact h p _ st
    | shared id initial => exact h p _ _
    | fresh initial => exact mapState_reaches (h p _ _) _
  | hide key p => exact h p _ st
  | rule r =>
    simp only [step, rule]
    split
    · exact call_reaches h _ _ _ st
    · exact .const _
  | define r force body => exact call_reaches h _ _ _ st
  | group p => exact h p ctx st
  | «sealed» hasAction p => exact h p ctx st

end Nodes

end Node

/-! ## The fixed point -/

/-- With more and more fuel a parser comes to its answer. -/
theorem parse_approach (env : Env) (g : Grammar) (ctx : Ctx) :
    Node.Approach (fun n => parse env n g ctx) (answer env g ctx) := by
  intro st
  by_cases hs : (answer env g ctx st).Spent
  · exact .inl hs
  · right
    obtain ⟨-, n, hn⟩ := (answers_iff env g ctx st _).mpr ⟨hs, rfl⟩
    filter_upwards [eventually_ge_atTop n] with m hm
    have hbelow := parse_below env hm g ctx st
    rw [hn] at hbelow
    exact (hbelow.eq hs).symm

/-- The outcomes are the same, or both are for want of fuel. -/
def Outcome.Same (o o' : Outcome) : Prop := o = o' ∨ o.Spent ∧ o'.Spent

/-- The answer of a node is that of a step over the answers of the parsers below it. -/
theorem answer_same (env : Env) (g : Grammar) (ctx : Ctx) (st : State) :
    (answer env g ctx st).Same (Node.step env (answer env) g ctx st) := by
  have hstep : (Node.step env (answer env) g ctx st).Below Halt.Spent (answer env g ctx st) := by
    have happroach : Node.Approach (fun n => Node.step env (parse env n) g ctx)
        (Node.step env (answer env) g ctx) :=
      Node.step_reaches (fun g ctx => parse_approach env g ctx) g ctx
    obtain hs | hf := happroach st
    · exact .inr hs
    · obtain ⟨n, hn⟩ := hf.exists
      rw [← hn]
      have hbelow := parse_below_answer env g ctx st (n + 1)
      rwa [parse_succ] at hbelow
  have hanswer : (answer env g ctx st).Below Halt.Spent (Node.step env (answer env) g ctx st) := by
    by_cases hs : (answer env g ctx st).Spent
    · exact .inr hs
    · obtain ⟨-, n, hn⟩ := (answers_iff env g ctx st _).mpr ⟨hs, rfl⟩
      have hbelow := parse_below env (Nat.le_succ n) g ctx st
      rw [hn] at hbelow
      rw [hbelow.eq hs, parse_succ]
      exact Node.step_below (fun g ctx st => parse_below_answer env g ctx st n) g ctx st
  obtain heq | hs := hstep
  · exact .inl heq.symm
  · obtain heq | hs' := hanswer
    · exact .inl heq
    · exact .inr ⟨hs', hs⟩

/-- What a node answers is what its step makes of the answers below. -/
theorem answers_iff_step {env : Env} {g : Grammar} {ctx : Ctx} {st : State} {o : Outcome} :
    Answers env g ctx st o ↔ ¬ o.Spent ∧ Node.step env (answer env) g ctx st = o := by
  have hsame := answer_same env g ctx st
  rw [answers_iff]
  constructor
  · rintro ⟨ho, rfl⟩
    rcases hsame with he | ⟨hspent, -⟩
    · exact ⟨ho, he.symm⟩
    · exact absurd hspent ho
  · rintro ⟨ho, rfl⟩
    rcases hsame with he | ⟨-, hspent⟩
    · exact ⟨ho, he⟩
    · exact absurd hspent ho

end Peg
