/-
  Peg.Proofs.SortedItems

  The items of sets and the entries of maps: lists in increasing order of a
  part of their values. An insertion finds the one place of a value, keeps the
  list increasing and leaves the rest alone; at the place of an equal value, a
  set keeps what it had and a map takes what is new. So an increasing list that
  is put together again from its values comes out as it was, a set is known by
  its members (`insertAll_congr`), and a map answers with the last entry that
  was put there (`find_insertAll`).
-/
import Peg.Proofs.ValueOrder
import Mathlib.Data.List.Perm.Basic

namespace Peg.Value

open Ordering

variable {f : Value → Value} {latest : Bool} {a b v w : Value} {vs ws : List Value}

/-! ## Order of parts -/

theorem order_self (a : Value) : order a a = .eq := Std.ReflCmp.compare_self

theorem order_gt : order a b = .gt ↔ order b a = .lt := Std.OrientedCmp.gt_iff_lt

theorem order_lt_trans {c : Value} (hab : order a b = .lt) (hbc : order b c = .lt) :
    order a c = .lt := Std.TransCmp.lt_trans hab hbc

/-- Values with one place compare alike. -/
theorem order_congr_left {c : Value} (h : order a b = .eq) : order a c = order b c :=
  Std.TransCmp.congr_left h

/-! ## Increasing lists -/

/-- Each value comes before all that follow it. -/
def Sorted (f : Value → Value) (vs : List Value) : Prop :=
  vs.Pairwise fun a b => order (f a) (f b) = .lt

theorem sorted_cons : Sorted f (v :: vs) ↔ (∀ w ∈ vs, order (f v) (f w) = .lt) ∧ Sorted f vs :=
  List.pairwise_cons

theorem increasing_iff : increasing f vs = true ↔ Sorted f vs := by
  induction vs with
  | nil => simp [increasing, Sorted]
  | cons a vs ih =>
    cases vs with
    | nil => simp [increasing, Sorted]
    | cons b vs =>
      rw [increasing, Bool.and_eq_true, beq_iff_eq, ih, sorted_cons (v := a)]
      constructor
      · rintro ⟨hab, h⟩
        refine ⟨fun w hw => ?_, h⟩
        rcases List.mem_cons.mp hw with rfl | hw
        · exact hab
        · exact order_lt_trans hab ((sorted_cons.mp h).1 w hw)
      · rintro ⟨hlt, h⟩
        exact ⟨hlt b List.mem_cons_self, h⟩

/-! ## Insertion -/

/-- Put a value into a list sorted by a part of the values. Where there is a value with that
    part, the later or the earlier of the two stays. -/
def insertBy (f : Value → Value) (latest : Bool) (v : Value) : List Value → List Value
  | [] => [v]
  | w :: ws =>
    match order (f v) (f w) with
    | .lt => v :: w :: ws
    | .eq => (if latest then v else w) :: ws
    | .gt => w :: insertBy f latest v ws

theorem insertSorted_eq (v : Value) (ws : List Value) :
    insertSorted v ws = insertBy id false v ws := by
  induction ws with
  | nil => rfl
  | cons w ws ih =>
    simp only [insertSorted, insertBy, ih, id_eq]
    rfl

theorem insertEntry_eq (v : Value) (ws : List Value) :
    insertEntry v ws = insertBy key true v ws := by
  induction ws with
  | nil => rfl
  | cons w ws ih =>
    simp only [insertEntry, insertBy, ih]
    rfl

theorem mem_insertBy (h : a ∈ insertBy f latest v ws) : a = v ∨ a ∈ ws := by
  induction ws with
  | nil => exact .inl (List.mem_singleton.mp h)
  | cons w ws ih =>
    rw [insertBy] at h
    split at h
    · exact List.mem_cons.mp h
    · cases latest with
      | true => exact (List.mem_cons.mp h).imp_right (List.mem_cons_of_mem w)
      | false => exact .inr h
    · rcases List.mem_cons.mp h with rfl | h
      · exact .inr List.mem_cons_self
      · exact (ih h).imp_right (List.mem_cons_of_mem w)

theorem insertBy_sorted (h : Sorted f ws) : Sorted f (insertBy f latest v ws) := by
  induction ws with
  | nil => simp [insertBy, Sorted]
  | cons w ws ih =>
    have ⟨hlt, hws⟩ := sorted_cons.mp h
    rw [insertBy]
    split
    · next hvw =>
      refine sorted_cons.mpr ⟨fun u hu => ?_, h⟩
      rcases List.mem_cons.mp hu with rfl | hu
      · exact hvw
      · exact order_lt_trans hvw (hlt u hu)
    · next hvw =>
      refine sorted_cons.mpr ⟨fun u hu => ?_, hws⟩
      cases latest with
      | true => exact (order_congr_left hvw).trans (hlt u hu)
      | false => exact hlt u hu
    · next hvw =>
      refine sorted_cons.mpr ⟨fun u hu => ?_, ih hws⟩
      rcases mem_insertBy hu with rfl | hu
      · exact order_gt.mp hvw
      · exact hlt u hu

/-- A value that comes after all others goes to the end. -/
theorem insertBy_last (h : ∀ w ∈ ws, order (f w) (f v) = .lt) :
    insertBy f latest v ws = ws ++ [v] := by
  induction ws with
  | nil => rfl
  | cons w ws ih =>
    have hw : order (f v) (f w) = .gt := order_gt.mpr (h w List.mem_cons_self)
    have hws := ih fun u hu => h u (List.mem_cons_of_mem w hu)
    simp only [insertBy, hw, hws, List.cons_append]

/-- Where the earlier value stays, everything stays. -/
theorem mem_insertBy_of_mem (h : a ∈ ws) : a ∈ insertBy f false v ws := by
  induction ws with
  | nil => cases h
  | cons w ws ih =>
    rw [insertBy]
    split
    · exact List.mem_cons_of_mem v h
    · exact h
    · rcases List.mem_cons.mp h with rfl | h
      · exact List.mem_cons_self
      · exact List.mem_cons_of_mem w (ih h)

/-- The value, or one with its place, is there afterwards. -/
theorem insertBy_has (f : Value → Value) (latest : Bool) (v : Value) (ws : List Value) :
    ∃ w ∈ insertBy f latest v ws, order (f v) (f w) = .eq := by
  induction ws with
  | nil => exact ⟨v, List.mem_singleton_self v, order_self _⟩
  | cons w ws ih =>
    rw [insertBy]
    split
    · exact ⟨v, List.mem_cons_self, order_self _⟩
    · next hvw =>
      cases latest with
      | true => exact ⟨v, List.mem_cons_self, order_self _⟩
      | false => exact ⟨w, List.mem_cons_self, hvw⟩
    · have ⟨u, hu, hvu⟩ := ih
      exact ⟨u, List.mem_cons_of_mem w hu, hvu⟩

/-- Looking up a key after an entry was put there. -/
theorem find_insertBy (k v : Value) (ws : List Value) :
    (insertBy f true v ws).find? (fun w => order k (f w) == .eq) =
      if order k (f v) = .eq then Option.some v
      else ws.find? fun w => order k (f w) == .eq := by
  induction ws with
  | nil => by_cases hk : order k (f v) = .eq <;> simp [insertBy, hk]
  | cons w ws ih =>
    rw [insertBy]
    split
    · by_cases hk : order k (f v) = .eq <;> simp [hk]
    · next hvw =>
      have hkw : order k (f v) = order k (f w) := Std.TransCmp.congr_right hvw
      by_cases hk : order k (f w) = .eq <;> simp [hkw, hk]
    · next hvw =>
      by_cases hk : order k (f v) = .eq
      · -- the entry that was there before has another key
        have hkw : order k (f w) = .gt := (order_congr_left hk).trans hvw
        simp [hkw, ih, hk]
      · simp [List.find?_cons, ih, hk]

/-! ## Many insertions -/

/-- Put values into a sorted list one after the other. -/
def insertAll (f : Value → Value) (latest : Bool) (ws vs : List Value) : List Value :=
  vs.foldl (fun ws v => insertBy f latest v ws) ws

theorem insertAll_append (h : Sorted f (ws ++ vs)) : insertAll f latest ws vs = ws ++ vs := by
  induction vs generalizing ws with
  | nil => simp [insertAll]
  | cons v vs ih =>
    have hlast : insertBy f latest v ws = ws ++ [v] :=
      insertBy_last fun w hw => (List.pairwise_append.mp h).2.2 w hw v List.mem_cons_self
    have happend := List.append_cons ws v vs
    rw [happend] at h ⊢
    rw [← ih h, insertAll, List.foldl_cons, hlast, insertAll]

theorem mem_insertAll_of_mem (h : a ∈ ws) : a ∈ insertAll f false ws vs := by
  induction vs generalizing ws with
  | nil => exact h
  | cons v vs ih => exact ih (mem_insertBy_of_mem h)

theorem insertAll_sorted (h : Sorted f ws) (vs : List Value) :
    Sorted f (insertAll f latest ws vs) := by
  induction vs generalizing ws with
  | nil => exact h
  | cons v vs ih => exact ih (insertBy_sorted h)

/-- Looking up a key after entries were put there: the last one with that key, or what was there
    before. -/
theorem find_insertAll (k : Value) (ws vs : List Value) :
    (insertAll f true ws vs).find? (fun w => order k (f w) == .eq) =
      (vs.reverse.find? fun w => order k (f w) == .eq).or
        (ws.find? fun w => order k (f w) == .eq) := by
  induction vs generalizing ws with
  | nil => rfl
  | cons v vs ih =>
    rw [insertAll, List.foldl_cons, ← insertAll, ih, find_insertBy, List.reverse_cons,
      List.find?_append]
    by_cases hk : order k (f v) = .eq <;> simp [hk]

/-! ## Sets by their members -/

section Members

variable {p : Value → Prop}

theorem mem_insertAll (hp : ∀ a b, p a → p b → order a b = .eq → a = b) (hws : ∀ w ∈ ws, p w)
    (hvs : ∀ v ∈ vs, p v) : a ∈ insertAll id false ws vs ↔ a ∈ ws ∨ a ∈ vs := by
  induction vs generalizing ws with
  | nil => simp [insertAll]
  | cons v vs ih =>
    have hv := hvs v List.mem_cons_self
    have hins : ∀ w ∈ insertBy id false v ws, p w := fun w hw => by
      rcases mem_insertBy hw with rfl | hw
      · exact hv
      · exact hws w hw
    have hmem : a ∈ insertBy id false v ws ↔ a = v ∨ a ∈ ws := by
      refine ⟨mem_insertBy, ?_⟩
      rintro (rfl | h)
      · obtain ⟨w, hw, haw⟩ := insertBy_has id false a ws
        have heq := hp a w hv (hins w hw) haw
        exact heq ▸ hw
      · exact mem_insertBy_of_mem h
    rw [insertAll, List.foldl_cons, ← insertAll,
      ih hins fun u hu => hvs u (List.mem_cons_of_mem v hu), hmem, List.mem_cons, or_comm (a := a = v), or_assoc]

/-- Increasing lists with the same members are the same. -/
theorem sorted_ext (hws : Sorted id ws) (hvs : Sorted id vs) (h : ∀ a, a ∈ ws ↔ a ∈ vs) :
    ws = vs := by
  have nodup : ∀ {us : List Value}, Sorted id us → us.Nodup := fun hus =>
    hus.imp fun hlt heq => by
      rw [heq, order_self] at hlt
      cases hlt
  have hperm : ws.Perm vs := (List.perm_ext_iff_of_nodup (nodup hws) (nodup hvs)).mpr h
  refine hperm.eq_of_pairwise (fun a b _ _ hab hba => ?_) hws hvs
  -- no two values come before each other
  have hlt := order_lt_trans hab hba
  rw [order_self] at hlt
  cases hlt

/-- What is put into a set counts by its members only: neither their order nor how often each
    comes makes a difference. -/
theorem insertAll_congr {us : List Value} (hp : ∀ a b, p a → p b → order a b = .eq → a = b)
    (hsorted : Sorted id ws) (hws : ∀ w ∈ ws, p w) (hvs : ∀ v ∈ vs, p v)
    (h : ∀ a, a ∈ us ↔ a ∈ vs) : insertAll id false ws us = insertAll id false ws vs := by
  have hus : ∀ u ∈ us, p u := fun u hu => hvs u ((h u).mp hu)
  apply sorted_ext (insertAll_sorted hsorted us) (insertAll_sorted hsorted vs)
  intro a
  rw [mem_insertAll hp hws hus, mem_insertAll hp hws hvs, h]

end Members

end Peg.Value
