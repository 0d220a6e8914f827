/-
  Peg.Attribute.Ty

  The types of attributes, built from numbers, texts and the types that a user
  declares. Main statement: equality of types is decidable (`Ty.beq_iff`).
-/

namespace Peg

/-- The integer types. The pointer-sized ones have 64 bits. -/
inductive IntTy where
  | u8 | u16 | u32 | u64 | u128 | usize
  | i8 | i16 | i32 | i64 | i128 | isize
  deriving DecidableEq, Repr

namespace IntTy

def bits : IntTy → Nat
  | u8 | i8 => 8
  | u16 | i16 => 16
  | u32 | i32 => 32
  | u64 | i64 | usize | isize => 64
  | u128 | i128 => 128

def signed : IntTy → Bool
  | u8 | u16 | u32 | u64 | u128 | usize => false
  | i8 | i16 | i32 | i64 | i128 | isize => true

/-- The least value. -/
def lowest (k : IntTy) : Int := if k.signed then -Int.pow 2 (k.bits - 1) else 0

/-- The greatest value. -/
def highest (k : IntTy) : Int :=
  if k.signed then Int.pow 2 (k.bits - 1) - 1 else Int.pow 2 k.bits - 1

/-- `n` is a value of the type. -/
def holds (k : IntTy) (n : Int) : Bool := k.lowest ≤ n && n ≤ k.highest

theorem holds_iff {k : IntTy} {n : Int} : k.holds n = true ↔ k.lowest ≤ n ∧ n ≤ k.highest := by
  rw [holds, Bool.and_eq_true, decide_eq_true_eq, decide_eq_true_eq]

def name : IntTy → String
  | u8 => "u8" | u16 => "u16" | u32 => "u32" | u64 => "u64" | u128 => "u128" | usize => "usize"
  | i8 => "i8" | i16 => "i16" | i32 => "i32" | i64 => "i64" | i128 => "i128" | isize => "isize"

/-- Every value of `source` is a value of `target`, whatever the platform makes of the
    pointer-sized types. -/
def widens (target source : IntTy) : Bool :=
  match target, source with
  | usize, s => s == usize || s == u8 || s == u16
  | isize, s => s == isize || s == u8 || s == i8 || s == i16
  | _, usize | _, isize => false
  | t, s => s.lowest ≥ t.lowest && s.highest ≤ t.highest

theorem widens_bounds {k j : IntTy} (h : k.widens j = true) :
    k.lowest ≤ j.lowest ∧ j.highest ≤ k.highest := by
  revert h
  cases k <;> cases j <;> decide

theorem widens_holds {k j : IntTy} {n : Int} (h : k.widens j = true) (hn : j.holds n = true) :
    k.holds n = true := by
  have hbounds := widens_bounds h
  rw [holds_iff] at hn ⊢
  omega

end IntTy

/-- Collections of single items. -/
inductive ListKind where
  | vec
  | deque
  | small (inlined : Nat)
  | treeSet
  | hashSet
  deriving DecidableEq, Repr

/-- Collections of entries with a key and a value. -/
inductive MapKind where
  | tree
  | hash
  deriving DecidableEq, Repr

/-- The scalar types besides the integers. -/
inductive Scalar where
  | bool
  | char
  | single
  | double
  deriving DecidableEq, Repr

/-- The names of the types that a user declares. What is behind a name is up to the declarations in
    force. -/
inductive UserTy where
  | token
  | employee
  | ident
  | any
  deriving DecidableEq, Repr

/-- The types of attributes. -/
inductive Ty where
  | unused
  | int (k : IntTy)
  | scalar (s : Scalar)
  | user (u : UserTy)
  | text
  | box (t : Ty)
  | option (t : Ty)
  | either (l r : Ty)
  | tuple (ts : List Ty)
  | list (c : ListKind) (t : Ty)
  | map (c : MapKind) (k v : Ty)

namespace Ty

instance : Inhabited Ty := ⟨.unused⟩

/-! ## Abbreviations -/

abbrev bool : Ty := .scalar .bool
abbrev char : Ty := .scalar .char
abbrev single : Ty := .scalar .single
abbrev double : Ty := .scalar .double
abbrev vec (t : Ty) : Ty := .list .vec t
abbrev any : Ty := .user .any

/-! ## Equality -/

mutual

def beq : Ty → Ty → Bool
  | .unused, .unused => true
  | .int a, .int b => a == b
  | .scalar a, .scalar b => a == b
  | .user a, .user b => a == b
  | .text, .text => true
  | .box a, .box b => beq a b
  | .option a, .option b => beq a b
  | .either a b, .either c d => beq a c && beq b d
  | .tuple as, .tuple bs => beqList as bs
  | .list c a, .list d b => c == d && beq a b
  | .map c a b, .map d e f => c == d && beq a e && beq b f
  | _, _ => false

def beqList : List Ty → List Ty → Bool
  | [], [] => true
  | a :: as, b :: bs => beq a b && beqList as bs
  | _, _ => false

end

mutual

theorem beq_iff : ∀ a b : Ty, beq a b = true ↔ a = b
  | .unused, b => by cases b <;> simp [beq]
  | .int _, b => by cases b <;> simp [beq]
  | .scalar _, b => by cases b <;> simp [beq]
  | .user _, b => by cases b <;> simp [beq]
  | .text, b => by cases b <;> simp [beq]
  | .box a, b => by cases b <;> simp [beq, beq_iff a]
  | .option a, b => by cases b <;> simp [beq, beq_iff a]
  | .either a c, b => by cases b <;> simp [beq, beq_iff a, beq_iff c]
  | .tuple as, b => by cases b <;> simp [beq, beqList_iff as]
  | .list c a, b => by cases b <;> simp [beq, beq_iff a]
  | .map c a d, b => by cases b <;> simp [beq, beq_iff a, beq_iff d, and_assoc]

theorem beqList_iff : ∀ as bs : List Ty, beqList as bs = true ↔ as = bs
  | [], bs => by cases bs <;> simp [beqList]
  | a :: as, bs => by cases bs <;> simp [beqList, beq_iff a, beqList_iff as]

end

instance : DecidableEq Ty := fun a b => decidable_of_iff _ (beq_iff a b)

/-! ## Size -/

mutual

/-- How much there is to take apart; an entry of a map is a pair. -/
def size : Ty → Nat
  | .unused | .int _ | .scalar _ | .user _ => 1
  | .text => 2
  | .box t => size t + 1
  | .option t => size t + 1
  | .either l r => size l + size r + 1
  | .tuple ts => sizes ts + 1
  | .list _ t => size t + 1
  | .map _ k v => size k + size v + 2

def sizes : List Ty → Nat
  | [] => 0
  | t :: ts => size t + sizes ts

end

theorem size_le_sizes {t : Ty} {ts : List Ty} (h : t ∈ ts) : size t ≤ sizes ts := by
  induction ts with
  | nil => simp at h
  | cons u us ih =>
    simp only [sizes]
    rcases List.mem_cons.1 h with rfl | h
    · omega
    · have := ih h
      omega

/-! ## Parts -/

/-- Values of the type carry information. -/
def present : Ty → Bool
  | .unused => false
  | _ => true

/-- The items of a container: characters of a text, entries of a map. -/
def item? : Ty → Option Ty
  | .text => some char
  | .list _ t => some t
  | .map _ k v => some (.tuple [k, v])
  | _ => none

/-- What a repetition of the type collects into. -/
def repeated : Ty → Ty
  | .unused => .unused
  | .scalar .char => .text
  | t => vec t

theorem size_item {t i : Ty} (h : t.item? = some i) : i.size < t.size := by
  cases t <;> simp only [item?, Option.some.injEq, reduceCtorEq] at h
  · subst h
    simp [size]
  · subst h
    simp [size]
  · subst h
    simp [size, sizes]

/-! ## Names -/

def Scalar.name : Scalar → String
  | .bool => "bool"
  | .char => "char"
  | .single => "f32"
  | .double => "f64"

def UserTy.name : UserTy → String
  | .token => "Token"
  | .employee => "Employee"
  | .ident => "Ident"
  | .any => "Any"

mutual

/-- The written form of a type. A tuple of one slot keeps its comma. -/
def name : Ty → String
  | .unused => "Unused"
  | .int k => k.name
  | .scalar s => Scalar.name s
  | .user u => UserTy.name u
  | .text => "String"
  | .box t => s!"Box<{name t}>"
  | .option t => s!"Option<{name t}>"
  | .either l r => s!"Either<{name l}, {name r}>"
  | .tuple [t] => "(" ++ name t ++ ",)"
  | .tuple ts => "(" ++ ", ".intercalate (names ts) ++ ")"
  | .list .vec t => s!"Vec<{name t}>"
  | .list .deque t => s!"VecDeque<{name t}>"
  | .list (.small n) t => s!"SmallVec<[{name t}; {n}]>"
  | .list .treeSet t => s!"BTreeSet<{name t}>"
  | .list .hashSet t => s!"HashSet<{name t}>"
  | .map .tree k v => s!"BTreeMap<{name k}, {name v}>"
  | .map .hash k v => s!"HashMap<{name k}, {name v}>"

def names : List Ty → List String
  | [] => []
  | t :: ts => name t :: names ts

end

end Ty

end Peg
