/-
  Peg.Terminal.Real

  Real numbers: an optional sign, then digits with an optional point and an
  optional exponent, or one of the words for infinity and not-a-number in any
  case. Scanning finds where a number ends, reading takes a whole text apart.
-/
import Peg.Decimal.Binary
import Peg.Terminal.Literal

namespace Peg

/-- The size of a real number. -/
inductive Magnitude where
  | finite (d : Decimal)
  | infinity
  | nan
  deriving DecidableEq, Repr

structure Real where
  negative : Bool
  magnitude : Magnitude
  deriving DecidableEq, Repr

namespace Real

/-- How many ASCII digits a text starts with. -/
def digitCount (t : Text) : Nat := (t.takeWhile Char.isDigit).length

/-- How many signs a text starts with, at most one. -/
def signCount : Text → Nat
  | '+' :: _ => 1
  | '-' :: _ => 1
  | _ => 0

/-- The words for numbers that no digits write. -/
def words : List String := ["infinity", "inf", "nan"]

/-- The length of an exponent at the front of a text; zero when it has no digits. -/
def exponentLength : Text → Nat
  | c :: r =>
    if c = 'e' ∨ c = 'E' then
      let sign := signCount r
      let digits := digitCount (r.drop sign)
      if digits = 0 then 0 else 1 + sign + digits
    else 0
  | [] => 0

/-- The length of digits with an optional point, at least one digit among them. -/
def mantissaLength? (t : Text) : Option Nat :=
  let whole := digitCount t
  match t.drop whole with
  | '.' :: r =>
    let part := digitCount r
    -- a point alone is no number, but digits on one side of it are enough
    if whole = 0 ∧ part = 0 then none else some (whole + 1 + part)
  | _ => if whole = 0 then none else some whole

/-- The length of the number at the front of a text. -/
def scan (t : Text) : Option Nat :=
  let sign := signCount t
  let body := t.drop sign
  -- the longer word comes first in the list, as it begins with the shorter one
  match words.findSome? (fun w => Literal.scanAscii w.toList body) with
  | some n => some (sign + n)
  | none => (mantissaLength? body).map fun n => sign + n + exponentLength (body.drop n)

/-! ## Reading -/

def ofDigits (t : Text) : Nat := t.foldl (fun n c => 10 * n + (c.toNat - '0'.toNat)) 0

/-- A text as an exponent. -/
def readExponent? : Text → Option Int
  | [] => some 0
  | c :: r =>
    let digits := r.drop (signCount r)
    if (c = 'e' ∨ c = 'E') ∧ digits ≠ [] ∧ digits.all Char.isDigit then
      some (if r.head? = some '-' then -(ofDigits digits : Int) else ofDigits digits)
    else none

/-- A text as digits with an optional point and an optional exponent. -/
def readDecimal? (t : Text) : Option Decimal :=
  let whole := t.takeWhile Char.isDigit
  let r := t.dropWhile Char.isDigit
  match r with
  | '.' :: r =>
    let part := r.takeWhile Char.isDigit
    if whole = [] ∧ part = [] then none
    else
      (readExponent? (r.dropWhile Char.isDigit)).map fun e =>
        ⟨ofDigits (whole ++ part), e - part.length⟩
  | r => if whole = [] then none else (readExponent? r).map fun e => ⟨ofDigits whole, e⟩

/-- A whole text as a real number. -/
def read? (t : Text) : Option Real :=
  let body := t.drop (signCount t)
  let negative := t.head? == some '-'
  let word := body.map Char.toLower
  if word = "inf".toList ∨ word = "infinity".toList then some ⟨negative, .infinity⟩
  else if word = "nan".toList then some ⟨negative, .nan⟩
  else (readDecimal? body).map fun d => ⟨negative, .finite d⟩

/-- The bit pattern of the nearest number of a format. -/
def encode (f : BinaryFormat) (x : Real) : Nat :=
  let size :=
    match x.magnitude with
    | .finite d => d.encode f
    | .infinity => f.infinity
    | .nan => f.nan
  if x.negative then f.signBit + size else size

def toDouble (x : Real) : Float := Float.ofBits (x.encode .double).toUInt64

def toSingle (x : Real) : Float32 := Float32.ofBits (x.encode .single).toUInt32

end Real

end Peg
