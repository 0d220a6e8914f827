/-
  Peg.Attribute.Compose

  The attributes of composite parsers. A sequence collects what its parts carry
  from left to right: nothing, the one value there is, or a tuple; a tuple of
  twelve slots becomes the first slot of the next one. An alternative carries an
  option when one side carries nothing and one of two sides otherwise.
  A repetition collects into a text, a vector, or nothing.
-/
import Peg.Attribute.Value

namespace Peg

/-! ## Sequences -/

/-- The widest tuple. -/
def tupleWidth : Nat := 12

namespace Ty

/-- The slots collected so far, after one more part. -/
def slotsPush (slots : List Ty) (t : Ty) : List Ty :=
  if !t.present then slots
  else if slots.length = tupleWidth then [.tuple slots, t]
  else slots ++ [t]

/-- The type of a sequence with these slots. -/
def slotsFinish : List Ty → Ty
  | [] => .unused
  | [t] => t
  | ts => .tuple ts

/-- The type of a sequence of parts. -/
def sequence (parts : List Ty) : Ty := slotsFinish (parts.foldl slotsPush [])

/-- The type of an optional part. -/
def optional (t : Ty) : Ty := if t.present then .option t else .unused

/-- The type of a choice between two parts. -/
def alternative (l r : Ty) : Ty :=
  match l.present, r.present with
  | false, false => .unused
  | false, true => .option r
  | true, false => .option l
  | true, true => .either l r

end Ty

namespace Value

/-- The values collected so far, after one more part of type `t`. -/
def slotsPush (slots : List Value) (t : Ty) (v : Value) : List Value :=
  if !t.present then slots
  else if slots.length = tupleWidth then [.tuple slots, v]
  else slots ++ [v]

/-- The value of a sequence that collected these. -/
def slotsFinish : List Value → Value
  | [] => .unused
  | [v] => v
  | vs => .tuple vs

/-- The value of a sequence of parts. -/
def sequence (parts : List (Ty × Value)) : Value :=
  slotsFinish (parts.foldl (fun acc p => slotsPush acc p.1 p.2) [])

/-- The value of an optional part that is there. -/
def optional (t : Ty) (v : Value) : Value := if t.present then .some v else .unused

/-- The value of a choice that took its left part. -/
def alternativeLeft (l r : Ty) (v : Value) : Value :=
  match l.present, r.present with
  | false, false => .unused
  | false, true => .none
  | true, false => .some v
  | true, true => .left v

/-- The value of a choice that took its right part. -/
def alternativeRight (l r : Ty) (v : Value) : Value :=
  match l.present, r.present with
  | false, false => .unused
  | false, true => .some v
  | true, false => .none
  | true, true => .right v

/-! ## Repetitions -/

/-- A repetition over parts of type `t` after one more part. -/
def pushRepeated (t : Ty) (acc v : Value) : Value :=
  match t, acc, v with
  | .unused, acc, _ => acc
  | .scalar .char, .text s, .char c => .text (s.push c)
  | _, .seq vs, v => .seq (vs ++ [v])
  | _, acc, _ => acc

/-- The character a value is. -/
def asChar? : Value → Option Char
  | .char c => Option.some c
  | _ => Option.none

/-- The value of a repetition over parts of type `t`. -/
def collect (t : Ty) (vs : List Value) : Value :=
  match t with
  | .unused => .unused
  | .scalar .char => .text (String.ofList (vs.filterMap asChar?))
  | _ => .seq vs

end Value

end Peg
