/-
  Peg.Terminal.Integer

  Integers in any base up to thirty-six. The digits are folded one by one and
  every intermediate value must fit the type, so a value out of range is no
  match. Negative numbers are folded downwards, which reaches the least value
  of the type.
-/
import Peg.Attribute.Ty
import Peg.Text.Cursor

namespace Peg

/-- A number as a value of the type, if it is one. -/
def IntTy.fit? (k : IntTy) (n : Int) : Option Int := if k.holds n then some n else none

theorem IntTy.fit?_of_holds {k : IntTy} {n : Int} (h : k.holds n = true) : k.fit? n = some n :=
  if_pos h

theorem IntTy.fit?_of_not_holds {k : IntTy} {n : Int} (h : ¬ k.holds n = true) :
    k.fit? n = none := if_neg h

/-- An integer to read: its type, its base, the number of digits, and whether a sign may stand
    before them. -/
structure Integer where
  ty : IntTy
  radix : Nat := 10
  minDigits : Nat := 1
  maxDigits : Option Nat := none
  allowSign : Bool := false
  deriving DecidableEq, Repr

namespace Integer

/-- The value of a digit, letters in either case. -/
def digitValue? (radix : Nat) (c : Char) : Option Nat :=
  let n :=
    if '0' ≤ c ∧ c ≤ '9' then c.toNat - '0'.toNat
    else if 'a' ≤ c ∧ c ≤ 'z' then c.toNat - 'a'.toNat + 10
    else if 'A' ≤ c ∧ c ≤ 'Z' then c.toNat - 'A'.toNat + 10
    else 36
  if n < radix ∧ n < 36 then some n else none

/-- The leading digits of a text, at most `limit`. -/
def digitRun (radix : Nat) : Option Nat → Text → List Nat
  | some 0, _ => []
  | _, [] => []
  | limit, c :: r =>
    match digitValue? radix c with
    | some d => d :: digitRun radix (limit.map (· - 1)) r
    | none => []

/-- One more digit, away from zero. The base, the product with it, the digit and the new value all
    have to fit the type. -/
def step (n : Integer) (negative : Bool) (v : Int) (digit : Nat) : Option Int := do
  let radix ← n.ty.fit? n.radix
  let product ← n.ty.fit? (v * radix)
  let digit ← n.ty.fit? digit
  n.ty.fit? (if negative then product - digit else product + digit)

/-- The digits at the front of a text: how many there are, and their value. -/
def scanDigits (n : Integer) (negative : Bool) (t : Text) : Option (Nat × Int) :=
  let run := digitRun n.radix n.maxDigits t
  if run.length < n.minDigits then none
  else (run.foldlM (n.step negative) 0).map fun v => (run.length, v)

/-- The integer at the front of a text: the bytes it takes, and its value. -/
def scan (n : Integer) (t : Text) : Option (Nat × Int) :=
  match n.allowSign, t with
  | true, '-' :: r => (n.scanDigits true r).map fun (len, v) => (len + 1, v)
  | true, '+' :: r => (n.scanDigits false r).map fun (len, v) => (len + 1, v)
  | _, t => n.scanDigits false t

/-- The description: the base when it has a name, or whether a sign is allowed. -/
def what (n : Integer) : String :=
  if n.allowSign then "integer"
  else
    match n.radix with
    | 2 => "binary integer"
    | 8 => "octal integer"
    | 16 => "hexadecimal integer"
    | _ => "unsigned integer"

/-- The written form of the terminal itself. -/
def render (n : Integer) : String :=
  (if n.allowSign then "IntParser" else "UintParser") ++ s!"<{n.ty.name}, {n.radix}>"

end Integer

end Peg
