/-
  Peg.Attribute.Merge

  Moving a parsed value into a slot of a compatible type. One table of
  strategies says, from the two types alone, what happens; `Ty.accepts` says
  for which pairs of types anything does, and `Value.merge?` carries it out.

  | slot \ value     | unused | plain, variant | tuple          | optional             | either | container               |
  |------------------|--------|----------------|----------------|----------------------|--------|-------------------------|
  | unused           | keep   | keep           | keep           | keep                 | keep   | keep                    |
  | plain, variant   | keep   | convert        | convert        | convert              | unwrap | convert                 |
  | tuple            | keep   |                | slot by slot   |                      | unwrap |                         |
  | optional         | keep   | set            | set            | assign               | unwrap | set                     |
  | container        | keep   | push           | push or spread | push or push if some | unwrap | append, push or flatten |
  | either           | keep   |                |                |                      | convert|                         |
-/
import Peg.Attribute.Convert

namespace Peg

/-- What merging a value of one type into a slot of another does. -/
inductive Strategy where
  /-- the slot stays as it is -/
  | keep
  /-- the slot is assigned the converted value -/
  | convert
  /-- the active side is merged -/
  | unwrap (l r : Ty)
  /-- slot by slot -/
  | slots (ds ss : List Ty)
  /-- the inner value is rebuilt, or the slot emptied -/
  | assign (d s : Ty)
  /-- the slot holds the rebuilt value -/
  | set (d : Ty)
  /-- the rebuilt value becomes one more item -/
  | push (item : Ty)
  /-- the inner value, if there is one, is merged -/
  | mergeSome (s : Ty)
  /-- the slots of the value are merged one after the other -/
  | spread (ss : List Ty)
  /-- the items of the value are rebuilt and become items -/
  | pushEach (item source : Ty)
  /-- the items of the value are merged one after the other -/
  | mergeEach (source : Ty)
  /-- the types do not go together -/
  | refuse
  deriving DecidableEq

namespace Ty

section

variable [Declarations]

/-- How one container goes into another: by the depth of the items on both sides. -/
def containerStrategy (item sourceItem : Ty) : Strategy :=
  match item.kind, sourceItem.kind with
  | .container, .container => .pushEach item sourceItem
  | .container, _ => .push item
  | _, .container => .mergeEach sourceItem
  | _, .tuple => .mergeEach sourceItem
  | _, .option => .mergeEach sourceItem
  | _, _ => .pushEach item sourceItem

/-- How a value goes into a container with items of type `item`. -/
def intoContainer (item source : Ty) : Strategy :=
  match source with
  | .option s => if item.kind = .option then .push item else .mergeSome s
  | .tuple ss => if item.kind = .tuple then .push item else .spread ss
  | s =>
    match s.item? with
    | some j => containerStrategy item j
    | none => .push item

/-- The table of strategies. -/
def strategy (target source : Ty) : Strategy :=
  -- the rows and columns of nothing come first, then those of alternatives, as they win over kinds
  match target, source with
  | .unused, _ => .keep
  | _, .unused => .keep
  | .either _ _, .either _ _ => .convert
  | .either _ _, _ => .refuse
  | _, .either l r => .unwrap l r
  | .tuple ds, .tuple ss => if ds.length = ss.length then .slots ds ss else .refuse
  | .tuple _, _ => .refuse
  | .option d, .option s => .assign d s
  | .option d, _ => .set d
  | .text, s => intoContainer char s
  | .list _ t, s => intoContainer t s
  | .map _ k v, s => intoContainer (.tuple [k, v]) s
  | _, _ => .convert

/-! ## Strategies descend -/

/-- Every type that the strategy goes on with is smaller than the one it came from. -/
def Descends (target source : Ty) : Strategy → Prop
  | .unwrap l r => l.size < source.size ∧ r.size < source.size
  | .slots ds ss => sizes ds < target.size ∧ sizes ss < source.size
  | .assign d s => d.size < target.size ∧ s.size < source.size
  | .set d => d.size < target.size
  | .push i => i.size < target.size
  | .mergeSome s => s.size < source.size
  | .spread ss => sizes ss < source.size
  | .pushEach i j => i.size < target.size ∧ j.size < source.size
  | .mergeEach j => j.size < source.size
  | .keep | .convert | .refuse => True

theorem containerStrategy_descends {target source i j : Ty} (hi : i.size < target.size)
    (hj : j.size < source.size) : Descends target source (containerStrategy i j) := by
  unfold containerStrategy
  split <;> simp [Descends, hi, hj]

theorem intoContainer_descends {target source i : Ty} (hi : i.size < target.size) :
    Descends target source (intoContainer i source) := by
  unfold intoContainer
  split
  · split <;> simp [Descends, hi, size]
  · split <;> simp [Descends, hi, size]
  · split
    · next h => exact containerStrategy_descends hi (size_item h)
    · exact hi

theorem strategy_descends (target source : Ty) :
    Descends target source (strategy target source) := by
  unfold strategy
  split
  · trivial
  · trivial
  · trivial
  · trivial
  · simp only [Descends, size]
    omega
  · split <;> simp [Descends, size]
  · trivial
  · simp [Descends, size]
  · simp [Descends, size]
  · exact intoContainer_descends (size_item rfl)
  · exact intoContainer_descends (size_item rfl)
  · exact intoContainer_descends (size_item rfl)
  · trivial

end

/-! ## Which types go together -/

variable [Conversions]

/-- A value of type `source` can be merged into a slot of type `target`. -/
def accepts (target source : Ty) : Bool :=
  match _h : strategy target source with
  | .keep => true
  | .convert => target.convertible source
  | .unwrap l r => accepts target l && accepts target r
  | .slots ds ss => (ds.zip ss).attach.all fun ⟨(d, s), _⟩ => accepts d s
  | .assign d s => accepts d s
  | .set d => accepts d source
  | .push i => accepts i source
  | .mergeSome s => accepts target s
  | .spread ss => ss.attach.all fun ⟨s, _⟩ => accepts target s
  | .pushEach i j => accepts i j
  | .mergeEach j => accepts target j
  | .refuse => false
termination_by target.size + source.size
decreasing_by
  all_goals
    have down := strategy_descends target source
    simp only [_h, Descends] at down
  · omega
  · omega
  · next hz =>
    have h1 := size_le_sizes (List.of_mem_zip hz).1
    have h2 := size_le_sizes (List.of_mem_zip hz).2
    omega
  · omega
  · omega
  · omega
  · omega
  · next hs =>
    have := size_le_sizes hs
    omega
  · omega
  · omega

end Ty

namespace Value

/-! ## Containers -/

/-- One more item for a container of type `t`. A text takes characters; a set keeps its items
    sorted and takes each once; a map keeps one value for each key, the latest. -/
def push? : Ty → Value → Value → Option Value
  | .text, .text s, .char c => Option.some (.text (s.push c))
  | .list .treeSet _, .seq vs, v => Option.some (.seq (insertSorted v vs))
  | .list .hashSet _, .seq vs, v => Option.some (.seq (insertSorted v vs))
  | .list _ _, .seq vs, v => Option.some (.seq (vs ++ [v]))
  | .map _ _ _, .seq vs, v => Option.some (.seq (insertEntry v vs))
  | _, _, _ => Option.none

/-- The items of a container, in order. -/
def items? : Value → Option (List Value)
  | .text s => Option.some (s.toList.map .char)
  | .seq vs => Option.some vs
  | _ => Option.none

/-- How many items a container has. -/
def count (v : Value) : Nat :=
  match v with
  | .text s => s.length
  | .seq vs => vs.length
  | _ => 0

/-! ## Merging -/

/-- Each slot takes its value by its own merger. -/
def mergeSlots : List (Value → Value → Option Value) → List Value → List Value →
    Option (List Value)
  | [], [], [] => Option.some []
  | m :: ms, x :: xs, v :: vs => do
    let y ← m x v
    let ys ← mergeSlots ms xs vs
    return y :: ys
  | _, _, _ => Option.none

/-- One slot takes every value, each by its own merger. -/
def mergeInOrder : List (Value → Value → Option Value) → Value → List Value → Option Value
  | [], slot, [] => Option.some slot
  | m :: ms, slot, v :: vs => (m slot v).bind (mergeInOrder ms · vs)
  | _, _, _ => Option.none

variable [Conversions]

/-- Merge the value `v` of type `source` into the slot `slot` of type `target`. There is no result
    for types that do not go together or values that are not of their types. -/
def merge? (target source : Ty) (slot v : Value) : Option Value :=
  match _h : Ty.strategy target source with
  | .keep => Option.some slot
  | .convert => convert? target source v
  | .unwrap l r =>
    match v with
    | .left v => merge? target l slot v
    | .right v => merge? target r slot v
    | _ => Option.none
  | .slots ds ss =>
    match slot, v with
    | .tuple xs, .tuple vs =>
      (mergeSlots ((ds.zip ss).attach.map fun ⟨(d, s), _⟩ => merge? d s) xs vs).map .tuple
    | _, _ => Option.none
  | .assign d s =>
    match v with
    | .none => Option.some .none
    | .some v => (merge? d s (default d) v).map .some
    | _ => Option.none
  | .set d => (merge? d source (default d) v).map .some
  | .push i => (merge? i source (default i) v).bind (push? target slot)
  | .mergeSome s =>
    match v with
    | .none => Option.some slot
    | .some v => merge? target s slot v
    | _ => Option.none
  | .spread ss =>
    match v with
    | .tuple vs => mergeInOrder (ss.attach.map fun ⟨s, _⟩ => merge? target s) slot vs
    | _ => Option.none
  | .pushEach i j =>
    (items? v).bind fun vs =>
      vs.foldlM (fun acc v => (merge? i j (default i) v).bind (push? target acc)) slot
  | .mergeEach j => (items? v).bind fun vs => vs.foldlM (fun acc v => merge? target j acc v) slot
  | .refuse => Option.none
termination_by target.size + source.size
decreasing_by
  all_goals
    have down := Ty.strategy_descends target source
    simp only [_h, Ty.Descends] at down
  · omega
  · omega
  · next hz =>
    have h1 := Ty.size_le_sizes (List.of_mem_zip hz).1
    have h2 := Ty.size_le_sizes (List.of_mem_zip hz).2
    omega
  · omega
  · omega
  · omega
  · omega
  · next hs =>
    have := Ty.size_le_sizes hs
    omega
  · omega
  · omega

/-- Merge where the types are known to go together; the slot stays as it is otherwise. -/
def merge (target source : Ty) (slot v : Value) : Value :=
  (merge? target source slot v).getD slot

/-- A fresh slot of type `target` after merging `v` into it. -/
def rebuilt (target source : Ty) (v : Value) : Value :=
  merge target source (default target) v

end Value

end Peg
