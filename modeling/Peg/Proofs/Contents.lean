/-
  Peg.Proofs.Contents

  What the values of a type look like, and what a container is: its items. A
  container of type `c` is `pack c xs` for typed items `xs`, in order if the
  container keeps one (`isOf_container`). To push an item is to add it to the
  items (`push?_pack`), at the end or at its place, and every container comes
  from an empty one by pushing its own items in order (`pushAll_fresh`).
-/
import Peg.Attribute.Compose
import Peg.Proofs.SortedItems
import Mathlib.Data.List.Forall2

namespace Peg.Value

variable {c i : Ty} {ts : List Ty} {v : Value} {vs xs : List Value}

/-! ## Items -/

/-- How a container finds the place of an item: the part that its items are sorted by, and whether
    the latest of two items with one place stays. A text and a sequence put it at the end. -/
def placing : Ty → Option ((Value → Value) × Bool)
  | .list .treeSet _ | .list .hashSet _ => Option.some (id, false)
  | .map _ _ _ => Option.some (key, true)
  | _ => Option.none

/-- The container of type `c` with these items. -/
def pack : Ty → List Value → Value
  | .text, xs => .text (String.ofList (xs.filterMap asChar?))
  | _, xs => .seq xs

/-- The items of a container of type `c` after one more. -/
def added (c : Ty) (xs : List Value) (v : Value) : List Value :=
  match placing c with
  | Option.none => xs ++ [v]
  | Option.some (f, latest) => insertBy f latest v xs

theorem mem_added {a : Value} (h : a ∈ added c xs v) : a = v ∨ a ∈ xs := by
  unfold added at h
  split at h
  · exact (List.mem_append.mp h).symm.imp_left List.mem_singleton.mp
  · exact mem_insertBy h

theorem pack_chars (cs : List Char) : pack .text (cs.map .char) = .text (String.ofList cs) := by
  have h : (cs.map Value.char).filterMap asChar? = cs := by
    simp [List.filterMap_map, Function.comp_def, asChar?]
  rw [pack, h]

theorem foldl_added_of_placing {f : Value → Value} {latest : Bool}
    (hc : placing c = Option.some (f, latest)) (xs vs : List Value) :
    vs.foldl (added c) xs = insertAll f latest xs vs := by
  have hadd : added c = fun xs v => insertBy f latest v xs := by
    funext xs v
    rw [added, hc]
  rw [hadd, insertAll]

theorem foldl_added_of_none (hc : placing c = Option.none) (xs vs : List Value) :
    vs.foldl (added c) xs = xs ++ vs := by
  induction vs generalizing xs with
  | nil => simp
  | cons v vs ih => simp [added, hc, ih]

variable [Declarations]

/-! ## Values by their types -/

theorem areOf_iff : areOf ts vs = true ↔ List.Forall₂ (fun t v => isOf t v = true) ts vs := by
  induction ts generalizing vs with
  | nil => cases vs <;> simp [areOf]
  | cons t ts ih => cases vs <;> simp [areOf, ih]

theorem isOf_tuple : isOf (.tuple ts) v = true ↔
    ∃ vs, v = .tuple vs ∧ List.Forall₂ (fun t v => isOf t v = true) ts vs := by
  cases v <;> simp [isOf, areOf_iff]

theorem isEntry_eq (k t : Ty) : isEntry (isOf k) (isOf t) = isOf (.tuple [k, t]) := by
  funext v
  cases v with
  | tuple vs => rcases vs with _ | ⟨x, _ | ⟨y, _ | ⟨z, zs⟩⟩⟩ <;> simp [isEntry, isOf, areOf]
  | _ => rfl

mutual

/-- Every type starts from one of its values. -/
theorem isOf_default : ∀ t : Ty, isOf t (default t) = true
  | .unused | .text | .option _ | .list .vec _ | .list .deque _ | .list (.small _) _
  | .list .treeSet _ | .list .hashSet _ | .map _ _ _ => rfl
  | .int k => (by cases k <;> decide : k.holds 0 = true)
  | .scalar s => by cases s <;> rfl
  | .user u => (declared u).start_holds
  | .box t => isOf_default t
  | .either l _ => isOf_default l
  | .tuple ts => areOf_defaults ts

theorem areOf_defaults : ∀ ts : List Ty, areOf ts (defaults ts) = true
  | [] => rfl
  | t :: ts => by rw [defaults, areOf, isOf_default t, areOf_defaults ts]; rfl

end

/-! ## Contents -/

/-- Items that a container of type `c` can have, if `i` is the type of one. -/
structure Contents (c i : Ty) (xs : List Value) : Prop where
  typed : ∀ a ∈ xs, isOf i a = true
  sorted : ∀ f latest, placing c = Option.some (f, latest) → Sorted f xs

theorem contents_iff : Contents c i xs ↔ (∀ a ∈ xs, isOf i a = true) ∧
    ∀ f latest, placing c = Option.some (f, latest) → Sorted f xs :=
  ⟨fun h => ⟨h.typed, h.sorted⟩, fun h => ⟨h.1, h.2⟩⟩

theorem Contents.nil : Contents c i [] :=
  ⟨fun _ h => absurd h List.not_mem_nil, fun _ _ _ => List.Pairwise.nil⟩

theorem Contents.added (h : Contents c i xs) (hv : isOf i v = true) :
    Contents c i (added c xs v) where
  typed a ha := by
    rcases mem_added ha with rfl | ha
    · exact hv
    · exact h.typed a ha
  sorted f latest hf := by
    have hxs := h.sorted f latest hf
    simp only [Value.added, hf]
    exact insertBy_sorted hxs

theorem Contents.foldl_added (h : Contents c i xs) (hvs : ∀ v ∈ vs, isOf i v = true) :
    Contents c i (vs.foldl (Value.added c) xs) := by
  induction vs generalizing xs with
  | nil => exact h
  | cons v vs ih =>
    exact ih (h.added (hvs v List.mem_cons_self)) fun u hu => hvs u (List.mem_cons_of_mem v hu)

/-! ## Containers as their items -/

theorem chars_of_typed (h : ∀ a ∈ xs, isOf Ty.char a = true) :
    ∃ cs : List Char, xs = cs.map .char := by
  induction xs with
  | nil => exact ⟨[], rfl⟩
  | cons x xs ih =>
    obtain ⟨c, rfl⟩ := isOf_char.mp (h x List.mem_cons_self)
    obtain ⟨cs, rfl⟩ := ih fun a ha => h a (List.mem_cons_of_mem _ ha)
    exact ⟨c :: cs, rfl⟩

theorem default_container (hi : c.item? = .some i) : default c = pack c [] := by
  cases c <;> first | rfl | cases hi

theorem isOf_text : isOf .text v = true ↔ ∃ xs, v = pack .text xs ∧ Contents .text Ty.char xs := by
  constructor
  · intro h
    obtain ⟨s, rfl⟩ := isOf_string.mp h
    refine ⟨s.toList.map .char, ?_, fun a ha => ?_, fun f latest hf => by cases hf⟩
    · rw [pack_chars, String.ofList_toList]
    · obtain ⟨c, -, rfl⟩ := List.mem_map.mp ha
      rfl
  · rintro ⟨xs, rfl, -⟩
    rfl

theorem isOf_container (hi : c.item? = .some i) :
    isOf c v = true ↔ ∃ xs, v = pack c xs ∧ Contents c i xs := by
  cases c with
  | text =>
    cases hi
    exact isOf_text
  | list c t =>
    cases hi
    cases v with
    | seq vs => cases c <;> simp [isOf, pack, contents_iff, placing, increasing_iff]
    | _ => cases c <;> exact ⟨nofun, nofun⟩
  | map c k t =>
    cases hi
    cases v with
    | seq vs => simp [isOf, pack, contents_iff, placing, increasing_iff, isEntry_eq]
    | _ => exact ⟨nofun, nofun⟩
  | _ => cases hi

theorem items?_pack (hi : c.item? = .some i) (h : Contents c i xs) :
    items? (pack c xs) = .some xs := by
  cases c with
  | text =>
    cases hi
    obtain ⟨cs, rfl⟩ := chars_of_typed h.typed
    rw [pack_chars, items?, String.toList_ofList]
  | list c t => rfl
  | map c k t => rfl
  | _ => cases hi

theorem push?_pack (hi : c.item? = .some i) (h : Contents c i xs) (hv : isOf i v = true) :
    push? c (pack c xs) v = .some (pack c (added c xs v)) := by
  cases c with
  | text =>
    cases hi
    obtain ⟨cs, rfl⟩ := chars_of_typed h.typed
    obtain ⟨c, rfl⟩ := isOf_char.mp hv
    have hadd : added .text (cs.map .char) (.char c) = (cs ++ [c]).map .char := by
      simp [added, placing]
    rw [hadd, pack_chars, pack_chars, push?]
    simp
  | list c t => cases c <;> simp [pack, push?, added, placing, insertSorted_eq]
  | map c k t => simp [pack, push?, added, placing, insertEntry_eq]
  | _ => cases hi

/-- Items that are pushed one after the other are added one after the other. -/
theorem pushAll_pack (hi : c.item? = .some i) (h : Contents c i xs)
    (hvs : ∀ v ∈ vs, isOf i v = true) :
    vs.foldlM (push? c) (pack c xs) = .some (pack c (vs.foldl (added c) xs)) := by
  induction vs generalizing xs with
  | nil => rfl
  | cons v vs ih =>
    have hv := hvs v List.mem_cons_self
    rw [List.foldlM_cons, push?_pack hi h hv]
    exact ih (h.added hv) fun u hu => hvs u (List.mem_cons_of_mem v hu)

theorem foldl_added_append (h : Contents c i (xs ++ vs)) :
    vs.foldl (added c) xs = xs ++ vs := by
  cases hc : placing c with
  | none => exact foldl_added_of_none hc xs vs
  | some p =>
    rw [foldl_added_of_placing hc]
    exact insertAll_append (h.sorted p.1 p.2 hc)

/-- A container comes from an empty one by pushing its items in order. -/
theorem pushAll_fresh (hi : c.item? = .some i) (h : Contents c i xs) :
    xs.foldlM (push? c) (default c) = .some (pack c xs) := by
  have hadd : xs.foldl (added c) [] = xs := foldl_added_append h
  rw [default_container hi, pushAll_pack hi .nil h.typed, hadd]

end Peg.Value
