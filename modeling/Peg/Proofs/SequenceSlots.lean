/-
  Peg.Proofs.SequenceSlots

  What a sequence makes of the types and the values of its parts. Parts that carry
  nothing are left out; of the others one stands alone, and more are the slots of a
  tuple, which becomes the first slot of the next tuple when it is full. The rule is one
  for types and for values, so that slots are collected for both at once (`Nesting`):
  taking the first slot apart as often as a tuple was full gives all that was collected,
  in order (`Nesting.holds_collect`). As both are collected in step, the value of a
  sequence is of its type (`isOf_sequence`).
-/
import Peg.Attribute.Declared
import Peg.Proofs.Contents

namespace Peg

/-! ## Slots -/

/-- Things of which some are tuples of others. -/
structure Nesting (α : Type) where
  tuple : List α → α
  slots? : α → Option (List α)
  slots?_tuple : ∀ slots, slots? (tuple slots) = some slots

/-- How often a tuple was full when one more thing came, if there are so many things: with the
    thirteenth for the first time, and then with every eleventh, as the tuple before takes the first
    slot. -/
def timesFull (count : Nat) : Nat := (count - 2) / (tupleWidth - 1)

namespace Nesting

variable {α : Type} (N : Nesting α) {n : Nat} {slots all : List α}

/-- The slots after one more thing. -/
def push (slots : List α) (a : α) : List α :=
  if slots.length = tupleWidth then [N.tuple slots, a] else slots ++ [a]

/-- The slots for a number of things. -/
def collect (as : List α) : List α := as.foldl N.push []

/-- The slots with the first one taken apart, and the first one of that again, `n` times over. Each
    time it has to be a full tuple. -/
def unnest? : Nat → List α → Option (List α)
  | 0, slots => some slots
  | _ + 1, [] => none
  | n + 1, a :: rest =>
    match N.slots? a with
    | some inner => if inner.length = tupleWidth then (unnest? n inner).map (· ++ rest) else none
    | none => none

theorem unnest?_tuple (h : slots.length = tupleWidth) (rest : List α) :
    N.unnest? (n + 1) (N.tuple slots :: rest) = (N.unnest? n slots).map (· ++ rest) := by
  simp only [unnest?, N.slots?_tuple, if_pos h]

variable {N}

/-- Slots that can be taken apart have a full tuple in front. -/
theorem exists_of_unnest?_succ (h : N.unnest? (n + 1) slots = some all) :
    ∃ a inner rest front, slots = a :: rest ∧ N.slots? a = some inner ∧
      inner.length = tupleWidth ∧ N.unnest? n inner = some front ∧ all = front ++ rest := by
  cases slots with
  | nil => cases h
  | cons a rest =>
    rw [unnest?] at h
    split at h
    · rename_i inner hinner
      split at h
      · rename_i hfull
        obtain ⟨front, hfront, rfl⟩ := Option.map_eq_some_iff.mp h
        exact ⟨a, inner, rest, front, rfl, hinner, hfull, hfront, rfl⟩
      · cases h
    · cases h

/-- Each time a slot gives way to the slots of a full tuple. -/
theorem length_of_unnest? (h : N.unnest? n slots = some all) :
    all.length = slots.length + (tupleWidth - 1) * n := by
  induction n generalizing slots all with
  | zero => cases h; rfl
  | succ n ih =>
    obtain ⟨a, inner, rest, front, rfl, -, hfull, hfront, rfl⟩ := exists_of_unnest?_succ h
    have hlen := ih hfront
    simp only [List.length_append, List.length_cons, tupleWidth] at *
    omega

/-- One more slot comes last, however often the first is taken apart. -/
theorem unnest?_append (h : N.unnest? n slots = some all) (a : α) :
    N.unnest? n (slots ++ [a]) = some (all ++ [a]) := by
  cases n with
  | zero => cases h; rfl
  | succ n =>
    obtain ⟨b, inner, rest, front, rfl, hinner, hfull, hfront, rfl⟩ := exists_of_unnest?_succ h
    simp [unnest?, hinner, hfull, hfront]

/-- These are the slots for all these things. -/
def Holds (N : Nesting α) (slots all : List α) : Prop :=
  N.unnest? (timesFull all.length) slots = some all

theorem Holds.length_eq (h : N.Holds slots all) :
    all.length = slots.length + (tupleWidth - 1) * timesFull all.length :=
  length_of_unnest? h

theorem Holds.length_le (h : N.Holds slots all) : slots.length ≤ tupleWidth := by
  have hlen := h.length_eq
  simp only [timesFull, tupleWidth] at *
  omega

/-- The first slot is taken only if there are more things than one. -/
theorem Holds.two_le_length (h : N.Holds slots all) (hall : 2 ≤ all.length) :
    2 ≤ slots.length := by
  have hlen := h.length_eq
  simp only [timesFull, tupleWidth] at *
  omega

/-- What is counted is how often the slots were as many as a tuple has. -/
theorem Holds.timesFull_succ (h : N.Holds slots all) :
    timesFull (all.length + 1) =
      timesFull all.length + if slots.length = tupleWidth then 1 else 0 := by
  have hlen := h.length_eq
  split <;> simp only [timesFull, tupleWidth] at * <;> omega

theorem Holds.push (h : N.Holds slots all) (a : α) : N.Holds (N.push slots a) (all ++ [a]) := by
  rw [Holds, List.length_append, List.length_singleton, h.timesFull_succ, Nesting.push]
  split
  · -- the full tuple is the first slot, and its own slots are there if it is taken apart
    rename_i hfull
    rw [N.unnest?_tuple hfull, h]
    rfl
  · exact unnest?_append h a

theorem Holds.foldl_push (h : N.Holds slots all) (as : List α) :
    N.Holds (as.foldl N.push slots) (all ++ as) := by
  induction as generalizing slots all with
  | nil => rwa [List.append_nil]
  | cons a as ih =>
    rw [List.foldl_cons, List.append_cons all a as]
    exact ih (h.push a)

theorem holds_collect (N : Nesting α) (as : List α) : N.Holds (N.collect as) as := by
  have hnothing : N.Holds [] [] := by simp [Holds, timesFull, unnest?]
  exact hnothing.foldl_push as

end Nesting

/-! ## Types and values -/

/-- Tuples among types. -/
def Ty.nesting : Nesting Ty where
  tuple := .tuple
  slots?
    | .tuple ts => some ts
    | _ => none
  slots?_tuple _ := rfl

/-- Tuples among values. -/
def Value.nesting : Nesting Value where
  tuple := .tuple
  slots?
    | .tuple vs => Option.some vs
    | _ => Option.none
  slots?_tuple _ := rfl

/-- The parts that carry something. -/
def kept (parts : List (Ty × Value)) : List (Ty × Value) := parts.filter (·.1.present)

theorem Ty.slotsPush_eq (slots : List Ty) (t : Ty) :
    slotsPush slots t = if t.present then nesting.push slots t else slots := by
  rw [slotsPush, Nesting.push]
  cases t.present <;> rfl

theorem Value.slotsPush_eq (slots : List Value) (t : Ty) (v : Value) :
    slotsPush slots t v = if t.present then nesting.push slots v else slots := by
  rw [slotsPush, Nesting.push]
  cases t.present <;> rfl

/-- The type of a sequence is that of the parts kept. -/
theorem Ty.sequence_eq (parts : List (Ty × Value)) :
    sequence (parts.map Prod.fst) = slotsFinish (nesting.collect ((kept parts).map Prod.fst)) := by
  rw [sequence, Nesting.collect, kept, List.foldl_map, List.foldl_map, List.foldl_filter]
  simp only [slotsPush_eq]

theorem Value.sequence_eq (parts : List (Ty × Value)) :
    sequence parts = slotsFinish (nesting.collect ((kept parts).map Prod.snd)) := by
  rw [sequence, Nesting.collect, kept, List.foldl_map, List.foldl_filter]
  simp only [slotsPush_eq]

/-! ## Values of their types -/

section Typed

variable [Declarations] {ts : List Ty} {vs : List Value} {t : Ty} {v : Value}

/-- The values are of the types, one by one. -/
abbrev Typed (ts : List Ty) (vs : List Value) : Prop :=
  List.Forall₂ (fun t v => Value.isOf t v = true) ts vs

/-- Both tuples are full at the same time. -/
theorem Typed.push (h : Typed ts vs) (hv : Value.isOf t v = true) :
    Typed (Ty.nesting.push ts t) (Value.nesting.push vs v) := by
  rw [Nesting.push, Nesting.push, h.length_eq]
  split
  · have htuple : Value.isOf (.tuple ts) (.tuple vs) = true := Value.isOf_tuple.mpr ⟨vs, rfl, h⟩
    exact .cons htuple (.cons hv .nil)
  · exact List.rel_append h (.cons hv .nil)

theorem Typed.foldl_push (h : Typed ts vs) {parts : List (Ty × Value)}
    (hparts : ∀ p ∈ parts, Value.isOf p.1 p.2 = true) :
    Typed ((parts.map Prod.fst).foldl Ty.nesting.push ts)
      ((parts.map Prod.snd).foldl Value.nesting.push vs) := by
  induction parts generalizing ts vs with
  | nil => exact h
  | cons p parts ih =>
    exact ih (h.push (hparts p List.mem_cons_self)) fun q hq =>
      hparts q (List.mem_cons_of_mem p hq)

theorem Typed.finish (h : Typed ts vs) :
    Value.isOf (Ty.slotsFinish ts) (Value.slotsFinish vs) = true := by
  match ts, vs, h with
  | [], [], _ => rfl
  | [_], [_], .cons hv .nil => exact hv
  | _ :: _ :: _, _ :: _ :: _, h => exact Value.isOf_tuple.mpr ⟨_, rfl, h⟩

/-- The value of a sequence of values is of the type of the sequence. -/
theorem isOf_sequence {parts : List (Ty × Value)}
    (hparts : ∀ p ∈ parts, Value.isOf p.1 p.2 = true) :
    Value.isOf (Ty.sequence (parts.map Prod.fst)) (Value.sequence parts) = true := by
  rw [Ty.sequence_eq, Value.sequence_eq]
  have hnothing : Typed [] [] := .nil
  exact (hnothing.foldl_push fun p hp => hparts p (List.mem_of_mem_filter hp)).finish

end Typed

/-! ## Sequences -/

/-- The type and the value of a sequence that keeps these parts. -/
inductive Composed : List (Ty × Value) → Ty → Value → Prop where
  /-- nothing -/
  | nothing : Composed [] .unused .unused
  /-- the one part as it is -/
  | one (t : Ty) (v : Value) : Composed [(t, v)] t v
  /-- tuples with as many slots each, not too many, that can be taken apart to the parts -/
  | tuple {parts : List (Ty × Value)} {ts : List Ty} {vs : List Value} :
      2 ≤ vs.length → vs.length ≤ tupleWidth → ts.length = vs.length →
      Ty.nesting.unnest? (timesFull parts.length) ts = some (parts.map Prod.fst) →
      Value.nesting.unnest? (timesFull parts.length) vs = some (parts.map Prod.snd) →
      Composed parts (.tuple ts) (.tuple vs)

theorem Ty.slotsFinish_tuple {ts : List Ty} (h : 2 ≤ ts.length) : slotsFinish ts = .tuple ts := by
  match ts, h with
  | _ :: _ :: _, _ => rfl

theorem Value.slotsFinish_tuple {vs : List Value} (h : 2 ≤ vs.length) :
    slotsFinish vs = .tuple vs := by
  match vs, h with
  | _ :: _ :: _, _ => rfl

theorem composed_collect (parts : List (Ty × Value)) :
    Composed parts (Ty.slotsFinish (Ty.nesting.collect (parts.map Prod.fst)))
      (Value.slotsFinish (Value.nesting.collect (parts.map Prod.snd))) := by
  have htypes := Ty.nesting.holds_collect (parts.map Prod.fst)
  have hvalues := Value.nesting.holds_collect (parts.map Prod.snd)
  match parts with
  | [] => exact .nothing
  | [(t, v)] => exact .one t v
  | p :: q :: r =>
    generalize Ty.nesting.collect _ = ts at htypes ⊢
    generalize Value.nesting.collect _ = vs at hvalues ⊢
    have htwo := htypes.two_le_length (by simp)
    have htwo' := hvalues.two_le_length (by simp)
    rw [Ty.slotsFinish_tuple htwo, Value.slotsFinish_tuple htwo']
    have hlen := htypes.length_eq
    have hlen' := hvalues.length_eq
    simp only [List.length_map] at hlen hlen'
    refine .tuple htwo' hvalues.length_le (by omega) ?_ ?_
    · simpa [Nesting.Holds] using htypes
    · simpa [Nesting.Holds] using hvalues

/-- A sequence keeps the parts that carry something, all of them and in order, and nothing else.
    None make nothing and one stays as it is. More make a tuple that is not too wide, and taking its
    first slot apart as often as a tuple was full gives them back, for the type as for the value.
    If the values of the parts are of their types, then so is the value of the sequence. -/
theorem sequence_loses_nothing [Declarations] (parts : List (Ty × Value)) :
    Composed (kept parts) (Ty.sequence (parts.map Prod.fst)) (Value.sequence parts) ∧
    ((∀ p ∈ parts, Value.isOf p.1 p.2 = true) →
      Value.isOf (Ty.sequence (parts.map Prod.fst)) (Value.sequence parts) = true) := by
  constructor
  · rw [Ty.sequence_eq, Value.sequence_eq]
    exact composed_collect (kept parts)
  · exact isOf_sequence

/-- Thirteen numbers with parts between them that carry nothing: the first twelve are one slot. -/
theorem sequence_loses_nothing_thirteen :
    let parts := (List.range 13).flatMap fun n =>
      [(Ty.unused, Value.unused), (Ty.int .u8, Value.int n)]
    (∀ p ∈ parts, Value.isOf p.1 p.2 = true) ∧
    Value.sequence parts = .tuple [.tuple ((List.range 12).map fun n => .int n), .int 12] ∧
    Composed (kept parts) (Ty.sequence (parts.map Prod.fst)) (Value.sequence parts) ∧
    Value.isOf (Ty.sequence (parts.map Prod.fst)) (Value.sequence parts) = true := by
  intro parts
  have hparts : ∀ p ∈ parts, Value.isOf p.1 p.2 = true := by decide
  have hcomposed := sequence_loses_nothing parts
  exact ⟨hparts, rfl, hcomposed.1, hcomposed.2 hparts⟩

end Peg
