/-
  Peg.Attribute.Display

  Plain text forms of values, and eliminating a choice of two sides.
-/
import Peg.Attribute.Value

namespace Peg.Value

/-- The text of a value: numbers in decimal, texts and characters as they are, a choice as its
    active side. -/
def display? : Value → Option String
  | .unused => Option.some "unused"
  | .bool b => Option.some (toString b)
  | .int n => Option.some (toString n)
  | .char c => Option.some c.toString
  | .text s => Option.some s
  | .left v => display? v
  | .right v => display? v
  | _ => Option.none

/-- The left side, if it is active. -/
def left? : Value → Option Value
  | .left v => Option.some v
  | _ => Option.none

/-- The right side, if it is active. -/
def right? : Value → Option Value
  | .right v => Option.some v
  | _ => Option.none

/-- One of two functions of the active side. -/
def either {α : Type} (f g : Value → α) : Value → Option α
  | .left v => Option.some (f v)
  | .right v => Option.some (g v)
  | _ => Option.none

/-- The active side, when both sides have one type. -/
def side? (v : Value) : Option Value := v.either id id

end Peg.Value
