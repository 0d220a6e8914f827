/-
  Peg.Proofs.ValueOrder

  The order of values is an order: values are compared as the rows of atoms that
  spell them (`order_eq_compare`), and rows of atoms are in dictionary order. No
  row goes on where another one stops, so that what follows a value counts only
  between equal ones. Sets and maps, which keep their items in increasing order,
  rest on it.
-/
import Peg.Attribute.Merge

namespace Peg

/-! ## Atoms -/

/-- What values are spelled with: a number or a text. -/
structure Atom where
  number : Int
  text : String

namespace Atom

instance : Ord Atom := ⟨compareLex (compareOn number) (compareOn text)⟩

instance : Std.TransOrd Atom :=
  inferInstanceAs (Std.TransCmp (compareLex (compareOn number) (compareOn text)))

def ofInt (n : Int) : Atom := ⟨n, ""⟩

def ofNat (n : Nat) : Atom := ofInt n

def ofText (s : String) : Atom := ⟨0, s⟩

@[simp] theorem compare_ofInt (m n : Int) : compare (ofInt m) (ofInt n) = compare m n := by
  have htext : compare "" "" = .eq := Std.ReflCmp.compare_self
  have hboth : compare (ofInt m) (ofInt n) = (compare m n).then (compare "" "") := rfl
  rw [hboth, htext, Ordering.then_eq]

@[simp] theorem compare_ofNat (m n : Nat) : compare (ofNat m) (ofNat n) = compare m n := by
  rw [ofNat, ofNat, compare_ofInt]
  simp only [compare, compareOfLessAndEq, Int.ofNat_lt, Int.ofNat_inj]

@[simp] theorem compare_ofText (s t : String) : compare (ofText s) (ofText t) = compare s t := rfl

end Atom

namespace Value

/-! ## Spelling -/

/-- What a token is spelled with. -/
def tokenAtoms : Token → List Atom
  | .nil => [.ofNat 0]
  | .int n => [.ofNat 1, .ofInt n]
  | .text s => [.ofNat 2, .ofText s]
  | .pair n s => [.ofNat 3, .ofInt n, .ofText s]

/-- What the tag of a name is spelled with. -/
def tagAtoms : Option Nat → List Atom
  | Option.none => [.ofNat 0]
  | Option.some n => [.ofNat 1, .ofNat n]

mutual

/-- What a value is spelled with, after its shape. -/
def atoms : Value → List Atom
  | .unused | .none => []
  | .bool b => [.ofNat b.toNat]
  | .int n => [.ofInt n]
  | .char c => [.ofNat c.toNat]
  | .single x => [.ofNat x.toBits.toNat]
  | .double x => [.ofNat x.toBits.toNat]
  | .text s => [.ofText s]
  | .some v | .left v | .right v => .ofNat v.shape :: atoms v
  | .tuple vs | .seq vs => atomsOfAll vs
  | .token t => tokenAtoms t
  | .employee e => [.ofText e.name, .ofInt e.age]
  | .ident i => .ofText i.name :: tagAtoms i.tag

/-- What values one after the other are spelled with: each comes behind a number, and another number
    is the stop. -/
def atomsOfAll : List Value → List Atom
  | [] => [.ofNat 0]
  | v :: vs => .ofNat 1 :: .ofNat v.shape :: (atoms v ++ atomsOfAll vs)

end

/-! ## Comparing -/

theorem order_of_shape_ne {a b : Value} (h : a.shape ≠ b.shape) :
    order a b = compare a.shape b.shape := by
  cases a with
  | token t => cases t <;> cases b <;> first | rfl | exact absurd rfl h
  | _ => cases b <;> first | rfl | exact absurd rfl h

variable (x y : List Atom)

theorem compare_tokenAtoms (s t : Token) :
    compare (tokenAtoms s ++ x) (tokenAtoms t ++ y) =
      (order (.token s) (.token t)).then (compare x y) := by
  cases s <;> cases t <;> first | rfl | simp [tokenAtoms, order, Ordering.then_assoc]

theorem compare_tagAtoms : ∀ m n : Option Nat,
    compare (tagAtoms m ++ x) (tagAtoms n ++ y) = (compare m n).then (compare x y)
  | .none, .none | .none, .some _ | .some _, .none => rfl
  | .some m, .some n => by
    have hsome : compare (Option.some m) (Option.some n) = compare m n := rfl
    simp [tagAtoms, hsome]

theorem compare_toNat32 (a b : UInt32) : compare a.toNat b.toNat = compare a b := by
  simp [compare, compareOfLessAndEq, UInt32.lt_iff_toNat_lt, UInt32.toNat_inj]

theorem compare_toNat64 (a b : UInt64) : compare a.toNat b.toNat = compare a b := by
  simp [compare, compareOfLessAndEq, UInt64.lt_iff_toNat_lt, UInt64.toNat_inj]

mutual

/-- Values of one shape are compared as what spells them, and what follows them comes second. -/
theorem compare_atoms (x y : List Atom) : ∀ a b : Value, a.shape = b.shape →
    compare (atoms a ++ x) (atoms b ++ y) = (order a b).then (compare x y)
  | .unused, .unused, _ | .none, .none, _ => rfl
  | .bool a, .bool b, _ => by cases a <;> cases b <;> rfl
  | .int a, .int b, _ => by simp [atoms, order]
  | .char a, .char b, _ => by simp [atoms, order]
  | .single a, .single b, _ => by simp [atoms, order, compare_toNat32]
  | .double a, .double b, _ => by simp [atoms, order, compare_toNat64]
  | .text a, .text b, _ => by simp [atoms, order]
  | .some a, .some b, _ | .left a, .left b, _ | .right a, .right b, _ => compare_code x y a b
  | .tuple as, .tuple bs, _ | .seq as, .seq bs, _ => compare_atomsOfAll x y as bs
  | .token s, .token t, _ => compare_tokenAtoms x y s t
  | .employee d, .employee e, _ => by simp [atoms, order, Ordering.then_assoc]
  | .ident i, .ident j, _ => by simp [atoms, order, compare_tagAtoms, Ordering.then_assoc]

theorem compare_code (x y : List Atom) (a b : Value) :
    compare (.ofNat a.shape :: atoms a ++ x) (.ofNat b.shape :: atoms b ++ y) =
      (order a b).then (compare x y) := by
  rw [List.cons_append, List.cons_append, List.compare_cons_cons, Atom.compare_ofNat]
  by_cases h : a.shape = b.shape
  · rw [compare_atoms x y a b h, Nat.compare_eq_eq.mpr h, Ordering.eq_then]
  · -- of two numbers that differ, one is less, and what comes second does not count
    rw [order_of_shape_ne h]
    rcases Nat.lt_or_gt_of_ne h with hlt | hgt
    · rw [Nat.compare_eq_lt.mpr hlt]
      rfl
    · rw [Nat.compare_eq_gt.mpr hgt]
      rfl

theorem compare_atomsOfAll (x y : List Atom) : ∀ as bs : List Value,
    compare (atomsOfAll as ++ x) (atomsOfAll bs ++ y) = (orderList as bs).then (compare x y)
  | [], [] | [], _ :: _ | _ :: _, [] => rfl
  | a :: as, b :: bs => by
    have hfirst := compare_code (atomsOfAll as ++ x) (atomsOfAll bs ++ y) a b
    have hrest := compare_atomsOfAll x y as bs
    rw [orderList, Ordering.then_assoc, ← hrest, ← hfirst]
    simp [atomsOfAll]

end

/-- What a value is spelled with. -/
def code (v : Value) : List Atom := .ofNat v.shape :: atoms v

/-- Values are compared as what spells them. -/
theorem order_eq_compare (a b : Value) : order a b = compare (code a) (code b) := by
  simpa [code] using (compare_code [] [] a b).symm

instance : Std.TransCmp order where
  eq_swap {a b} := by
    rw [order_eq_compare, order_eq_compare]
    exact Std.OrientedOrd.eq_swap
  isLE_trans {a b c} := by
    rw [order_eq_compare, order_eq_compare, order_eq_compare]
    exact Std.TransOrd.isLE_trans

end Value

end Peg
