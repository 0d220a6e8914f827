/-
  Peg.Proofs.Conversions

  A slot that can be assigned from a type can be assigned from all of its
  values, and is filled with a value of its own type (`convert?_total`); what
  cannot be assigned from a type takes none of its values. Numbers stay in
  range, as integers only widen, and what a declared type is assigned from comes
  with conversions into it.
-/
import Peg.Attribute.Convert
import Peg.Proofs.Contents

namespace Peg

/-! ## Ranges of integers -/

namespace IntTy

variable {k : IntTy}

theorem holds_ofBool (k : IntTy) (b : Bool) : k.holds (Value.ofBool b) = true := by
  cases k <;> cases b <;> decide

theorem holds_codePoint (h : Ty.fitsCodePoint k = true) (c : Char) : k.holds c.toNat = true := by
  have hc : c.toNat < 4294967296 := c.val.toNat_lt
  have hbounds : k.lowest ≤ 0 ∧ 4294967295 ≤ k.highest := by
    revert h
    cases k <;> decide
  rw [holds_iff]
  omega

end IntTy

namespace Value

variable [Conversions] {t s : Ty} {v : Value}

/-! ## All conversions -/

theorem convert?_self (t : Ty) (v : Value) : convert? t t v = Option.some v := if_pos rfl

theorem convert?_of_not_convertible (h : t.convertible s = false) (v : Value) :
    convert? t s v = Option.none := by
  have hts : t ≠ s := fun heq => by simp [Ty.convertible, heq] at h
  unfold convert?
  rw [if_neg hts, h, Bool.not_false, if_pos rfl]

/-- A declared type is assigned from every value of what it is assigned from. -/
theorem convert?_user_total {u : UserTy} (hts : Ty.user u ≠ s) (h : (origin? u s).isSome = true)
    (hv : isOf s v = true) :
    ∃ y, convert? (.user u) s v = Option.some y ∧ isOf (.user u) y = true := by
  have hcon : (Ty.user u).convertible s = true := by
    rw [Ty.convertible, Bool.or_eq_true]
    exact .inr h
  obtain ⟨o, ho⟩ := Option.isSome_iff_exists.mp h
  have hty : o.ty = s := by simpa using List.find?_some ho
  obtain ⟨y, hy, hholds⟩ := o.total v (hty ▸ hv)
  exact ⟨y, by simp [convert?, hts, hcon, ho, hy], hholds⟩

/-- A slot can be assigned from every value of a type that it can be assigned from. -/
theorem convert?_total (h : t.convertible s = true) (hv : isOf s v = true) :
    ∃ y, convert? t s v = Option.some y ∧ isOf t y = true := by
  by_cases hts : t = s
  · subst hts
    exact ⟨v, convert?_self t v, hv⟩
  have hfrom := h
  unfold Ty.convertible at hfrom
  rw [beq_eq_false_iff_ne.mpr hts, Bool.false_or] at hfrom
  split at hfrom
  -- integers, from integers, truth values and characters
  · obtain ⟨n, rfl, hn⟩ := isOf_int.mp hv
    exact ⟨.int n, by simp [convert?, hts, h], IntTy.widens_holds hfrom hn⟩
  · obtain ⟨b, rfl⟩ := isOf_bool.mp hv
    exact ⟨.int (ofBool b), by simp [convert?, h], IntTy.holds_ofBool _ b⟩
  · obtain ⟨c, rfl⟩ := isOf_char.mp hv
    exact ⟨.int c.toNat, by simp [convert?, h], IntTy.holds_codePoint hfrom c⟩
  -- characters and real numbers
  · obtain ⟨n, rfl, -⟩ := isOf_int.mp hv
    exact ⟨.char (Char.ofNat n.toNat), by simp [convert?, h], rfl⟩
  · obtain ⟨q, rfl⟩ := isOf_single.mp hv
    exact ⟨.double q.toFloat, by simp [convert?, h], rfl⟩
  · obtain ⟨n, rfl, -⟩ := isOf_int.mp hv
    exact ⟨.double (Float.ofInt n), by simp [convert?, h], rfl⟩
  · obtain ⟨n, rfl, -⟩ := isOf_int.mp hv
    exact ⟨.single (Float32.ofInt n), by simp [convert?, h], rfl⟩
  · obtain ⟨b, rfl⟩ := isOf_bool.mp hv
    exact ⟨.double (Float.ofInt (ofBool b)), by simp [convert?, h], rfl⟩
  · obtain ⟨b, rfl⟩ := isOf_bool.mp hv
    exact ⟨.single (Float32.ofInt (ofBool b)), by simp [convert?, h], rfl⟩
  · rw [beq_iff_eq] at hfrom
    subst hfrom
    exact ⟨v, by simp [convert?, hts, h], hv⟩
  · exact convert?_user_total hts hfrom hv
  · cases hfrom

end Value

end Peg
