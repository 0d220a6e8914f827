/-
  Peg.Proofs.Comparable

  Sets tell their items apart by an order. For the types that a set can have
  as items (`Ty.comparable`), values that compare equal are the same
  (`apart_of_comparable`), so that a set is known by its members.
-/
import Peg.Proofs.Contents

namespace Peg

variable [Declarations]

namespace Ty

mutual

/-- Values of the type have an order that tells them apart: neither numbers with a point nor values
    of declared types without an order are in them. -/
def comparable : Ty → Bool
  | .scalar .single | .scalar .double => false
  | .unused | .int _ | .scalar _ | .text => true
  | .user u => (declared u).ordered
  | .box t | .option t | .list _ t => comparable t
  | .either l r => comparable l && comparable r
  | .tuple ts => comparables ts
  | .map _ k t => comparable k && comparable t

def comparables : List Ty → Bool
  | [] => true
  | t :: ts => comparable t && comparables ts

end

end Ty

namespace Value

variable {c i t l r : Ty} {v : Value} {ts : List Ty} {as bs : List Value}

/-- Values of the type that compare equal are the same. -/
def Apart (t : Ty) : Prop :=
  ∀ a b, isOf t a = true → isOf t b = true → order a b = .eq → a = b

/-! ## Type by type -/

/-- Values that are compared by something that tells them apart. -/
theorem apart_of_compare {α β : Type} [Ord β] [Std.LawfulEqOrd β] {f : α → Value} {g : α → β}
    (hshape : ∀ v, isOf t v = true → ∃ a, v = f a) (hg : ∀ a b, g a = g b → a = b)
    (horder : ∀ a b, order (f a) (f b) = compare (g a) (g b)) : Apart t := by
  intro v w hv hw hvw
  obtain ⟨a, rfl⟩ := hshape v hv
  obtain ⟨b, rfl⟩ := hshape w hw
  rw [horder] at hvw
  rw [hg a b (Std.LawfulEqOrd.eq_of_compare hvw)]

theorem apart_int (k : IntTy) : Apart (.int k) :=
  apart_of_compare (g := id) (fun _ hv => (isOf_int.mp hv).imp fun _ h => h.1) (fun _ _ => id)
    fun _ _ => rfl

theorem apart_text : Apart .text :=
  apart_of_compare (g := id) (fun _ => isOf_string.mp) (fun _ _ => id) fun _ _ => rfl

theorem apart_bool : Apart Ty.bool :=
  apart_of_compare (g := id) (fun _ => isOf_bool.mp) (fun _ _ => id) fun _ _ => rfl

theorem apart_char : Apart Ty.char :=
  apart_of_compare (fun _ => isOf_char.mp) (fun _ _ => Char.toNat_inj.mp) fun _ _ => rfl

theorem apart_option (h : Apart t) : Apart (.option t) := by
  intro a b ha hb hab
  rcases isOf_option.mp ha with rfl | ⟨v, rfl, hv⟩ <;>
    rcases isOf_option.mp hb with rfl | ⟨w, rfl, hw⟩
  · rfl
  · cases hab
  · cases hab
  · rw [h v w hv hw hab]

theorem apart_either (hl : Apart l) (hr : Apart r) : Apart (.either l r) := by
  intro a b ha hb hab
  rcases isOf_either.mp ha with ⟨v, rfl, hv⟩ | ⟨v, rfl, hv⟩ <;>
    rcases isOf_either.mp hb with ⟨w, rfl, hw⟩ | ⟨w, rfl, hw⟩
  · rw [hl v w hv hw hab]
  · cases hab
  · cases hab
  · rw [hr v w hv hw hab]

omit [Declarations] in
theorem eq_of_orderList (h : ∀ p ∈ as.zip bs, order p.1 p.2 = .eq → p.1 = p.2)
    (hab : orderList as bs = .eq) : as = bs := by
  induction as generalizing bs with
  | nil =>
    cases bs with
    | nil => rfl
    | cons b bs => cases hab
  | cons a as ih =>
    cases bs with
    | nil => cases hab
    | cons b bs =>
      obtain ⟨hfirst, hrest⟩ := Ordering.then_eq_eq.mp hab
      have hhead : a = b := h (a, b) List.mem_cons_self hfirst
      rw [hhead, ih (fun p hp => h p (List.mem_cons_of_mem _ hp)) hrest]

theorem typed_of_mem_zip (has : List.Forall₂ (fun t v => isOf t v = true) ts as)
    (hbs : List.Forall₂ (fun t v => isOf t v = true) ts bs) :
    ∀ p ∈ as.zip bs, ∃ t ∈ ts, isOf t p.1 = true ∧ isOf t p.2 = true := by
  induction has generalizing bs with
  | nil =>
    intro p hp
    cases hp
  | cons ha _ ih =>
    cases hbs with
    | cons hb hbs =>
      intro p hp
      rcases List.mem_cons.mp hp with rfl | hp
      · exact ⟨_, List.mem_cons_self, ha, hb⟩
      · obtain ⟨t, ht, htyped⟩ := ih hbs p hp
        exact ⟨t, List.mem_cons_of_mem _ ht, htyped⟩

theorem apart_tuple (h : ∀ t ∈ ts, Apart t) : Apart (.tuple ts) := by
  intro a b ha hb hab
  obtain ⟨as, rfl, has⟩ := isOf_tuple.mp ha
  obtain ⟨bs, rfl, hbs⟩ := isOf_tuple.mp hb
  refine congrArg Value.tuple (eq_of_orderList (fun p hp => ?_) hab)
  obtain ⟨t, ht, hpa, hpb⟩ := typed_of_mem_zip has hbs p hp
  exact h t ht p.1 p.2 hpa hpb

theorem apart_seq (hi : c.item? = Option.some i) (hpack : pack c = .seq) (h : Apart i) :
    Apart c := by
  intro a b ha hb hab
  obtain ⟨as, rfl, has⟩ := (isOf_container hi).mp ha
  obtain ⟨bs, rfl, hbs⟩ := (isOf_container hi).mp hb
  rw [hpack] at hab ⊢
  refine congrArg Value.seq (eq_of_orderList (fun p hp => ?_) hab)
  have hmem := List.of_mem_zip hp
  exact h p.1 p.2 (has.typed _ hmem.1) (hbs.typed _ hmem.2)

/-! ## All comparable types -/

mutual

/-- The order of sets tells the values of comparable types apart. -/
theorem apart_of_comparable : ∀ t : Ty, t.comparable = true → Apart t
  | .unused, _ => fun _ _ ha hb _ => (isOf_unused.mp ha).trans (isOf_unused.mp hb).symm
  | .int k, _ => apart_int k
  | .scalar .bool, _ => apart_bool
  | .scalar .char, _ => apart_char
  | .user u, h => (declared u).apart h
  | .text, _ => apart_text
  | .box t, h => apart_of_comparable t h
  | .option t, h => apart_option (apart_of_comparable t h)
  | .either l r, h =>
    have ⟨hl, hr⟩ := Bool.and_eq_true_iff.mp h
    apart_either (apart_of_comparable l hl) (apart_of_comparable r hr)
  | .tuple ts, h => apart_tuple (apart_of_comparables ts h)
  | .list _ t, h => apart_seq rfl rfl (apart_of_comparable t h)
  | .map _ k t, h =>
    have ⟨hk, ht⟩ := Bool.and_eq_true_iff.mp h
    apart_seq rfl rfl <| apart_tuple <| List.forall_mem_cons.mpr
      ⟨apart_of_comparable k hk, List.forall_mem_singleton.mpr (apart_of_comparable t ht)⟩

theorem apart_of_comparables : ∀ ts : List Ty, Ty.comparables ts = true → ∀ t ∈ ts, Apart t
  | [], _ => fun _ ht => absurd ht List.not_mem_nil
  | t :: ts, h =>
    have ⟨ht, hts⟩ := Bool.and_eq_true_iff.mp h
    List.forall_mem_cons.mpr ⟨apart_of_comparable t ht, apart_of_comparables ts hts⟩

end

end Value

end Peg
