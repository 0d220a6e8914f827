/-
  Peg.Attribute.Declaration

  What a user declares of a type, and from it what is known of all types: the
  category of each, which values belong to it, and the value it starts from. The
  category alone decides how values move into other types. The declarations in
  force are a parameter, so that what is said of types is said whatever the
  declared ones are.
-/
import Peg.Attribute.Value

namespace Peg

/-! ## Declarations -/

/-- What a user declares of a type. -/
structure Declaration where
  /-- a variant, or else plain -/
  variant : Bool
  /-- the value is one of the type -/
  holds : Value → Bool
  /-- the value that a fresh slot of the type holds -/
  start : Value
  start_holds : holds start = true
  /-- the order of sets tells the values apart -/
  ordered : Bool
  apart : ordered = true →
    ∀ a b, holds a = true → holds b = true → Value.order a b = .eq → a = b

/-- The declarations in force, one for each name. -/
class Declarations where
  declared : UserTy → Declaration

export Declarations (declared)

/-! ## Categories -/

/-- How values of a type take part in merging and composition. -/
inductive Ty.Kind where
  /-- carries nothing -/
  | unused
  /-- assigned directly -/
  | plain
  /-- merged slot by slot -/
  | tuple
  /-- zero or one inner value -/
  | option
  /-- a declared variant, assigned from each of its alternatives -/
  | variant
  /-- the variant an alternative makes, unwrapped when merged -/
  | either
  /-- a collection -/
  | container
  deriving DecidableEq, Repr

/-- The name of the category; both sorts of variant share theirs. -/
def Ty.Kind.category : Ty.Kind → String
  | .unused => "unused"
  | .plain => "plain"
  | .tuple => "tuple-like"
  | .option => "optional"
  | .variant | .either => "variant"
  | .container => "container"

/-- The category of a declared type. -/
def Declaration.kind (d : Declaration) : Ty.Kind := bif d.variant then .variant else .plain

theorem Declaration.kind_cases (d : Declaration) : d.kind = .plain ∨ d.kind = .variant := by
  rw [kind]
  cases d.variant with
  | true => exact .inr rfl
  | false => exact .inl rfl

variable [Declarations]

def Ty.kind : Ty → Ty.Kind
  | .unused => .unused
  | .user u => (declared u).kind
  | .int _ | .scalar _ | .box _ => .plain
  | .option _ => .option
  | .either _ _ => .either
  | .tuple _ => .tuple
  | .text | .list _ _ | .map _ _ _ => .container

namespace Value

/-! ## Typing -/

/-- A pair of a key and a value. -/
def isEntry (isKey isValue : Value → Bool) : Value → Bool
  | .tuple [k, v] => isKey k && isValue v
  | _ => false

mutual

/-- The value is one of the type. -/
@[simp] def isOf : Ty → Value → Bool
  | .unused, .unused => true
  | .int k, .int n => k.holds n
  | .scalar .bool, .bool _ => true
  | .scalar .char, .char _ => true
  | .scalar .single, .single _ => true
  | .scalar .double, .double _ => true
  | .user u, v => (declared u).holds v
  | .text, .text _ => true
  | .box t, v => isOf t v
  | .option _, .none => true
  | .option t, .some v => isOf t v
  | .either l _, .left v => isOf l v
  | .either _ r, .right v => isOf r v
  | .tuple ts, .tuple vs => areOf ts vs
  | .list .treeSet t, .seq vs => vs.all (isOf t) && increasing id vs
  | .list .hashSet t, .seq vs => vs.all (isOf t) && increasing id vs
  | .list _ t, .seq vs => vs.all (isOf t)
  | .map _ k v, .seq vs => vs.all (isEntry (isOf k) (isOf v)) && increasing key vs
  | _, _ => false

/-- One value for each type. -/
def areOf : List Ty → List Value → Bool
  | [], [] => true
  | t :: ts, v :: vs => isOf t v && areOf ts vs
  | _, _ => false

end

section Shapes

variable {t l r : Ty} {v : Value}

theorem isOf_unused : isOf .unused v = true ↔ v = .unused := by
  cases v <;> simp [isOf]

theorem isOf_char : isOf Ty.char v = true ↔ ∃ c, v = .char c := by
  cases v <;> simp [isOf]

theorem isOf_bool : isOf Ty.bool v = true ↔ ∃ b, v = .bool b := by
  cases v <;> simp [isOf]

theorem isOf_single : isOf Ty.single v = true ↔ ∃ q, v = .single q := by
  cases v <;> simp [isOf]

theorem isOf_int {k : IntTy} : isOf (.int k) v = true ↔ ∃ n, v = .int n ∧ k.holds n = true := by
  cases v <;> simp [isOf]

theorem isOf_string : isOf .text v = true ↔ ∃ s, v = .text s := by
  cases v <;> simp [isOf]

theorem isOf_option :
    isOf (.option t) v = true ↔ v = .none ∨ ∃ w, v = .some w ∧ isOf t w = true := by
  cases v <;> simp [isOf]

theorem isOf_either :
    isOf (.either l r) v = true ↔
      (∃ w, v = .left w ∧ isOf l w = true) ∨ ∃ w, v = .right w ∧ isOf r w = true := by
  cases v <;> simp [isOf]

theorem isOf_pair :
    isOf (.tuple [l, r]) v = true ↔
      ∃ x y, v = .tuple [x, y] ∧ isOf l x = true ∧ isOf r y = true := by
  constructor
  · intro h
    cases v with
    | tuple vs =>
      rcases vs with _ | ⟨x, _ | ⟨y, _ | ⟨z, zs⟩⟩⟩ <;> simp only [isOf, areOf] at h
      · cases h
      · simp at h
      · exact ⟨x, y, rfl, by simpa using h⟩
      · simp at h
    | _ => cases h
  · rintro ⟨x, y, rfl, hx, hy⟩
    simp [isOf, areOf, hx, hy]

end Shapes

/-! ## Starting values -/

mutual

/-- The value a fresh slot of the type holds. -/
def default : Ty → Value
  | .unused => .unused
  | .int _ => .int 0
  | .scalar .bool => .bool false
  | .scalar .char => .char '\x00'
  | .scalar .single => .single 0
  | .scalar .double => .double 0
  | .user u => (declared u).start
  | .text => .text ""
  | .box t => default t
  | .option _ => .none
  | .either l _ => .left (default l)
  | .tuple ts => .tuple (defaults ts)
  | .list _ _ => .seq []
  | .map _ _ _ => .seq []

def defaults : List Ty → List Value
  | [] => []
  | t :: ts => default t :: defaults ts

end

end Value

end Peg
