/-
  Peg.Attribute.Convert

  Conversions that cannot fail: which types a plain or variant slot can be
  assigned from, and the value it then holds. Every type is assigned from
  itself; integers only widen; the declared types name their origins. Like what
  is declared, the conversions that come with it are a parameter.
-/
import Peg.Attribute.Declaration

namespace Peg

/-! ## Declared types -/

/-- A type that a declared one can be assigned from: each of its values is converted. -/
structure Origin [Declarations] (u : UserTy) where
  ty : Ty
  convert : Value → Option Value
  total : ∀ v, Value.isOf ty v = true →
    ∃ w, convert v = some w ∧ (declared u).holds w = true

/-- The declarations in force, each with what the type can be assigned from, besides itself. -/
class Conversions extends Declarations where
  origins : (u : UserTy) → List (Origin u)

export Conversions (origins)

variable [Conversions]

/-- What the declared type is assigned from, if the type is one of its origins. -/
def origin? (u : UserTy) (s : Ty) : Option (Origin u) := (origins u).find? (·.ty == s)

/-! ## Types that go together -/

namespace Ty

/-- Integers that every 64-bit number format holds exactly. -/
def fitsDouble : IntTy → Bool
  | .u8 | .u16 | .u32 | .i8 | .i16 | .i32 => true
  | _ => false

/-- Integers that every 32-bit number format holds exactly. -/
def fitsSingle : IntTy → Bool
  | .u8 | .u16 | .i8 | .i16 => true
  | _ => false

/-- Integers that hold every code point. -/
def fitsCodePoint : IntTy → Bool
  | .u32 | .u64 | .u128 => true
  | _ => false

/-- A slot of type `target` can be assigned from a value of type `source`. -/
def convertible (target source : Ty) : Bool :=
  target == source ||
    match target, source with
    | .int k, .int j => k.widens j
    | .int _, .scalar .bool => true
    | .int k, .scalar .char => fitsCodePoint k
    | .scalar .char, .int .u8 => true
    | .scalar .double, .scalar .single => true
    | .scalar .double, .int k => fitsDouble k
    | .scalar .single, .int k => fitsSingle k
    | .scalar .double, .scalar .bool => true
    | .scalar .single, .scalar .bool => true
    | .box t, s => t == s
    | .user u, s => (origin? u s).isSome
    | _, _ => false

end Ty

/-! ## Values -/

namespace Value

def ofBool (b : Bool) : Int := if b then 1 else 0

/-- The value that a slot of type `target` holds once it is assigned from a value of type
    `source`; nothing when the types do not allow it. -/
def convert? (target source : Ty) (v : Value) : Option Value :=
  if target = source then Option.some v
  else if !target.convertible source then Option.none
  else
    match target, v with
    | .int _, .int n => Option.some (.int n)
    | .int _, .bool b => Option.some (.int (ofBool b))
    | .int _, .char c => Option.some (.int c.toNat)
    | .scalar .char, .int n => Option.some (.char (Char.ofNat n.toNat))
    | .scalar .double, .single x => Option.some (.double x.toFloat)
    | .scalar .double, .int n => Option.some (.double (Float.ofInt n))
    | .scalar .single, .int n => Option.some (.single (Float32.ofInt n))
    | .scalar .double, .bool b => Option.some (.double (Float.ofInt (ofBool b)))
    | .scalar .single, .bool b => Option.some (.single (Float32.ofInt (ofBool b)))
    | .box _, v => Option.some v
    | .user u, v => (origin? u source).bind (·.convert v)
    | _, _ => Option.none

end Value

end Peg
