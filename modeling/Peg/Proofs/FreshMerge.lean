/-
  Peg.Proofs.FreshMerge

  A value that is merged into a fresh slot of its own type is the value that
  the slot then holds (`merge?_fresh`), for every type. By induction on the
  type: what is assigned is assigned whole, the slots of a tuple and the inner
  value of an option are fresh slots of their own types, and a container is put
  together from an empty one by its items, each rebuilt in a fresh item.
-/
import Peg.Proofs.MergeTotal

namespace Peg

namespace Value

theorem foldlM_congr {vs : List Value} {f g : Value → Value → Option Value}
    (h : ∀ v ∈ vs, ∀ x, f x v = g x v) (x : Value) : vs.foldlM f x = vs.foldlM g x := by
  induction vs generalizing x with
  | nil => rfl
  | cons v vs ih =>
    have hrest : vs.foldlM f = vs.foldlM g :=
      funext (ih fun u hu => h u (List.mem_cons_of_mem v hu))
    rw [List.foldlM_cons, List.foldlM_cons, h v List.mem_cons_self, hrest]

section

variable [Conversions] {t e i : Ty} {ts : List Ty} {v x : Value} {vs : List Value}

/-- A fresh slot of the type takes every value of the type as it is. -/
def Fresh (t : Ty) : Prop :=
  ∀ v, isOf t v = true → merge? t t (default t) v = Option.some v

/-! ## Type by type -/

theorem fresh_unused : Fresh .unused := by
  intro v hv
  obtain rfl := isOf_unused.mp hv
  exact merge?_keep rfl

theorem fresh_convert (h : Ty.strategy t t = .convert) : Fresh t := by
  intro v _
  rw [merge?_convert h, convert?_self]

theorem fresh_option (h : Fresh e) : Fresh (.option e) := by
  intro v hv
  have hstrat : Ty.strategy (.option e) (.option e) = .assign e e := rfl
  rcases isOf_option.mp hv with rfl | ⟨w, rfl, hw⟩
  · exact merge?_assign_none hstrat
  · rw [merge?_assign_some hstrat, h w hw, Option.map_some]

theorem mergeSlots_fresh (hvs : List.Forall₂ (fun t v => isOf t v = true) ts vs)
    (h : ∀ t ∈ ts, Fresh t) :
    mergeSlots ((ts.zip ts).map fun p => merge? p.1 p.2) (defaults ts) vs = Option.some vs := by
  induction hvs with
  | nil => rfl
  | cons hv _ ih =>
    have hhead := h _ List.mem_cons_self _ hv
    have hrest := ih fun t ht => h t (List.mem_cons_of_mem _ ht)
    simp [mergeSlots, defaults, hhead, hrest]

theorem fresh_tuple (h : ∀ t ∈ ts, Fresh t) : Fresh (.tuple ts) := by
  intro v hv
  have hstrat : Ty.strategy (.tuple ts) (.tuple ts) = .slots ts ts := if_pos rfl
  obtain ⟨vs, rfl, hvs⟩ := isOf_tuple.mp hv
  rw [default, merge?_slots hstrat, mergeSlots_fresh hvs h, Option.map_some]

/-- An item that is rebuilt in a fresh slot is pushed as it is. -/
theorem pushAs?_fresh (h : Fresh i) (hv : isOf i v = true) : pushAs? t i i x v = push? t x v := by
  rw [pushAs?, h v hv, Option.bind_some]

/-- Tuples and options that a container stores are pushed whole. -/
theorem merge?_item_whole (hi : t.item? = Option.some i) (hk : i.kind = .tuple ∨ i.kind = .option) :
    merge? t i x v = pushAs? t i i x v := by
  apply merge?_push
  rw [Ty.strategy_container hi]
  · cases i <;> first | rfl | (rcases hk with hk | hk <;> cases hk)
  · rcases hk with hk | hk <;> simp [hk]

theorem fresh_container (hi : t.item? = Option.some i) (h : Fresh i) : Fresh t := by
  intro v hv
  obtain ⟨vs, rfl, hvs⟩ := (isOf_container hi).mp hv
  have hpush : ∀ v ∈ vs, ∀ x, pushAs? t i i x v = push? t x v := fun v hv x =>
    pushAs?_fresh h (hvs.typed v hv)
  have hstrat := Ty.strategy_into hi hi
  have hall : merge? t t (default t) (pack t vs) = vs.foldlM (push? t) (default t) := by
    by_cases hk : i.kind = .tuple ∨ i.kind = .option
    · -- item by item through the container's own merge
      have hmerge : Ty.strategy t t = .mergeEach i := by
        rw [hstrat]
        rcases hk with hk | hk <;> simp [Ty.containerStrategy, hk]
      rw [merge?_mergeEach hmerge hvs]
      exact foldlM_congr (fun v hv x => (merge?_item_whole hi hk).trans (hpush v hv x)) _
    · have hmerge : Ty.strategy t t = .pushEach i i := by
        rw [hstrat, Ty.containerStrategy]
        cases hkind : i.kind <;> simp_all
      rw [merge?_pushEach hmerge hvs]
      exact foldlM_congr hpush _
  rw [hall, pushAll_fresh hi hvs]

/-! ## All types -/

mutual

theorem fresh_all : ∀ t : Ty, Fresh t
  | .unused => fresh_unused
  | .int _ | .scalar _ | .user _ | .box _ | .either _ _ => fresh_convert rfl
  | .option e => fresh_option (fresh_all e)
  | .tuple ts => fresh_tuple (fresh_each ts)
  | .text => fresh_container rfl (fresh_convert rfl)
  | .list _ t => fresh_container rfl (fresh_all t)
  -- the entries of a map are pairs
  | .map _ k t => fresh_container rfl <| fresh_tuple <|
      List.forall_mem_cons.mpr ⟨fresh_all k, List.forall_mem_singleton.mpr (fresh_all t)⟩

theorem fresh_each : ∀ (ts : List Ty), ∀ t ∈ ts, Fresh t
  | [] => fun _ ht => absurd ht List.not_mem_nil
  | t :: ts => List.forall_mem_cons.mpr ⟨fresh_all t, fresh_each ts⟩

end

/-- Merging into a fresh slot of the same type is the identity. -/
theorem merge?_fresh (t : Ty) (v : Value) (h : isOf t v = true) :
    merge? t t (default t) v = Option.some v := fresh_all t v h

end

/-- A map from texts to rows of optional pairs of a set and an alternative. -/
def rowsTy : Ty :=
  .map .tree .text (.list .deque (.option
    (.tuple [.list .treeSet (.int .u8), .either .bool (.user .token)])))

/-- Two rows, one of an empty option, the other of a pair. -/
def rows : Value :=
  .seq [.tuple [.text "a", .seq [.none]],
    .tuple [.text "b", .seq [.some (.tuple [.seq [.int 1, .int 7], .right (.token .nil)])]]]

theorem merge?_fresh_rows : isOf rowsTy rows = true ∧
    merge? rowsTy rowsTy (default rowsTy) rows = Option.some rows :=
  ⟨by decide, merge?_fresh rowsTy rows (by decide)⟩

end Value

end Peg
