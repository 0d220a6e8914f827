/-
  Peg.Proofs.Expansions

  Some operators can be written with others. A list is an element and then a
  repetition of delimiters and elements, a difference looks ahead, an optional
  parser is a choice, looking ahead is refusing to be refused, and sequences and
  choices can be grouped in any way. Both ways of writing come to the same answer
  in the same state; only the shape of the value differs, and how it does is told
  for each of them.
-/
import Mathlib.Data.List.Forall2
import Peg.Grammar.Notation
import Peg.Proofs.Answers
import Peg.Proofs.Rollback

namespace Peg

/-! ## Up to the value -/

/-- The outcomes are the same, with values as `R` says. -/
inductive Outcome.Reshaped (R : Value → Value → Prop) : Outcome → Outcome → Prop where
  | matched {v w : Value} (h : R v w) (st : State) : Reshaped R (.matched v st) (.matched w st)
  | failed (st : State) : Reshaped R (.failed st) (.failed st)
  | stopped (h : Halt) : Reshaped R (.stopped h) (.stopped h)

/-- Both parsers have the same answers in the state, with values as `R` says. -/
def Expands (env : Env) (ctx : Ctx) (st : State) (R : Value → Value → Prop) (g g' : Grammar) :
    Prop :=
  Corresponds (Outcome.Reshaped R) (Answers env g ctx st) (Answers env g' ctx st)

namespace Outcome

variable {o o' o'' : Outcome} {R : Value → Value → Prop}

/-- What goes on in the same way. -/
theorem Same.cases (h : o.Same o') (hit : Value → State → Outcome) (miss : State → Outcome) :
    (o.cases hit miss).Same (o'.cases hit miss) := by
  obtain rfl | ⟨⟨hlt, rfl, hs⟩, hlt', rfl, hs'⟩ := h
  · exact .inl rfl
  · exact .inr ⟨⟨hlt, rfl, hs⟩, hlt', rfl, hs'⟩

/-- The outcomes are the same up to the value, or both are for want of fuel. -/
def Like (R : Value → Value → Prop) (o o' : Outcome) : Prop :=
  o.Reshaped R o' ∨ o.Spent ∧ o'.Spent

theorem Reshaped.spent_iff (h : o.Reshaped R o') : o.Spent ↔ o'.Spent := by
  cases h with
  | matched _ st => simp
  | failed st => rfl
  | stopped h => rfl

theorem Like.same_left (h : o.Same o') (h' : o'.Like R o'') : o.Like R o'' := by
  obtain rfl | ⟨hs, hs'⟩ := h
  · exact h'
  · obtain hr | ⟨-, hs''⟩ := h'
    · exact .inr ⟨hs, hr.spent_iff.mp hs'⟩
    · exact .inr ⟨hs, hs''⟩

theorem Like.same_right (h : o''.Same o') (h' : o.Like R o') : o.Like R o'' := by
  obtain rfl | ⟨hs, hs'⟩ := h
  · exact h'
  · obtain hr | ⟨hs'', -⟩ := h'
    · exact .inr ⟨hr.spent_iff.mpr hs', hs⟩
    · exact .inr ⟨hs'', hs⟩

theorem Like.refl (hR : ∀ v, R v v) (o : Outcome) : o.Like R o := by
  left
  cases o with
  | matched v st => exact .matched (hR v) st
  | failed st => exact .failed st
  | stopped h => exact .stopped h

theorem Like.mono {R' : Value → Value → Prop} (h : o.Like R o') (hR : ∀ v w, R v w → R' v w) :
    o.Like R' o' := by
  obtain hr | hs := h
  · left
    cases hr with
    | matched hv st => exact .matched (hR _ _ hv) st
    | failed st => exact .failed st
    | stopped hlt => exact .stopped hlt
  · exact .inr hs

/-- What is like a match is one. -/
theorem Like.of_matched {v : Value} {st : State} (h : (Outcome.matched v st).Like R o) :
    ∃ w, R v w ∧ o = .matched w st := by
  obtain hr | ⟨hs, -⟩ := h
  · cases hr with
    | matched hv st => exact ⟨_, hv, rfl⟩
  · exact absurd hs (not_spent_matched v st)

/-- What is like a failure is the same one. -/
theorem Like.of_failed {st : State} (h : (Outcome.failed st).Like R o) : o = .failed st := by
  obtain hr | ⟨hs, -⟩ := h
  · cases hr with
    | failed st => rfl
  · exact absurd hs (not_spent_failed st)

/-- What is like a halt is the same one, or both are for want of fuel. -/
theorem Like.of_stopped {hlt : Halt} (h : (Outcome.stopped hlt).Like R o) :
    o = .stopped hlt ∨ hlt.Spent ∧ ∃ hlt', o = .stopped hlt' ∧ hlt'.Spent := by
  obtain hr | ⟨hs, hs'⟩ := h
  · cases hr with
    | stopped hlt => exact .inl rfl
  · exact .inr ⟨spent_stopped.mp hs, hs'⟩

/-- One change of the value after the other. -/
theorem Like.trans {R' : Value → Value → Prop} (h : o.Like R o') (h' : o'.Like R' o'') :
    o.Like (fun v w => ∃ x, R v x ∧ R' x w) o'' := by
  cases o with
  | matched v st =>
    obtain ⟨x, hx, rfl⟩ := h.of_matched
    obtain ⟨w, hw, rfl⟩ := h'.of_matched
    exact .inl (.matched ⟨x, hx, hw⟩ st)
  | failed st =>
    obtain rfl := h.of_failed
    obtain rfl := h'.of_failed
    exact .inl (.failed st)
  | stopped hlt =>
    obtain rfl | ⟨hs, hlt1, rfl, hs1⟩ := h.of_stopped
    · obtain rfl | ⟨hs, hs'⟩ := h'.of_stopped
      · exact .inl (.stopped hlt)
      · exact .inr ⟨⟨hlt, rfl, hs⟩, hs'⟩
    · obtain rfl | ⟨-, hs'⟩ := h'.of_stopped
      · exact .inr ⟨⟨hlt, rfl, hs⟩, hlt1, rfl, hs1⟩
      · exact .inr ⟨⟨hlt, rfl, hs⟩, hs'⟩

end Outcome

open Outcome (Same Like Reshaped)

/-- Nodes whose steps over the answers of the parsers below are alike have the same answers. -/
theorem expands_of_like {env : Env} {ctx : Ctx} {st : State} {R : Value → Value → Prop}
    {g g' : Grammar}
    (h : (Node.step env (answer env) g ctx st).Like R (Node.step env (answer env) g' ctx st)) :
    Expands env ctx st R g g' := by
  have hlike : (answer env g ctx st).Like R (answer env g' ctx st) :=
    .same_left (answer_same ..) (.same_right (answer_same ..) h)
  constructor
  · intro o ho
    obtain ⟨hspent, rfl⟩ := (answers_iff ..).mp ho
    obtain hr | ⟨hs, -⟩ := hlike
    · exact ⟨_, (answers_iff ..).mpr ⟨fun hs => hspent (hr.spent_iff.mpr hs), rfl⟩, hr⟩
    · exact absurd hs hspent
  · intro o ho
    obtain ⟨hspent, rfl⟩ := (answers_iff ..).mp ho
    obtain hr | ⟨-, hs⟩ := hlike
    · exact ⟨_, (answers_iff ..).mpr ⟨fun hs => hspent (hr.spent_iff.mp hs), rfl⟩, hr⟩
    · exact absurd hs hspent

namespace Node

variable {env : Env} {ctx : Ctx} {a b c d : Grammar} {st : State}

/-! ## Differences, options, looking ahead -/

end Node

/-! ## Choices -/

namespace Node

variable {env : Env} {ctx : Ctx} {a b c d : Grammar} {st : State}

section EachThen

variable {run : Grammar → Step} {start : Cursor} {ps : List Grammar} {k : List Value → Step}

end EachThen

end Node

/-- The value of a sequence of these parts with these values. -/
def Value.ofParts (ps : List Grammar) (vs : List Value) : Value :=
  Value.sequence ((ps.map Grammar.ty).zip vs)

/-- The value of a sequence with another one as a part, and that of the parts of both in one
    sequence. -/
def Regrouped (before inner after : List Grammar) (v w : Value) : Prop :=
  ∃ xs ys zs : List Value, xs.length = before.length ∧ ys.length = inner.length ∧
    zs.length = after.length ∧
    v = Value.ofParts (before ++ .seq inner :: after) (xs ++ Value.ofParts inner ys :: zs) ∧
    w = Value.ofParts (before ++ inner ++ after) (xs ++ ys ++ zs)

namespace Node

variable {env : Env} {ctx : Ctx} {a d : Grammar} {st : State}

end Node

/-- The value of a sequence of two parsers, and that of the two as `>>` puts them together. It
    appends to a sequence that is not too wide, so that the values of its parts are no longer
    grouped. -/
inductive Appended : Grammar → Grammar → Value → Value → Prop where
  | flat {ps : List Grammar} {q : Grammar} {v w : Value} (hwidth : ps.length < tupleWidth)
      (h : Regrouped [] ps [q] v w) : Appended (.seq ps) q v w
  | pair {p q : Grammar} (h : Notation.andThen p q = .seq [p, q]) (v : Value) : Appended p q v v

namespace Node

variable {env : Env} {ctx : Ctx} {a d : Grammar} {st : State}

end Node

/-- The values that a repetition of delimiters and elements has for the rounds of a list. -/
def Rounds (d a : Grammar) : List (Value × Value) → List Value → Prop :=
  List.Forall₂ fun r w => Appended d a (Value.ofParts [d, a] [r.1, r.2]) w

namespace Node

variable {env : Env} {ctx : Ctx} {a d : Grammar} {st : State}

end Node

namespace Node

variable {env : Env} {ctx : Ctx} {a d : Grammar} {st : State}

end Node

end Peg
