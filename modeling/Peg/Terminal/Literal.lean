/-
  Peg.Terminal.Literal

  Fixed words at the front of a text. The result is the number of bytes of the
  text that the word takes, which can differ from the bytes of the word when
  case is ignored.
-/
import Peg.Text.Case
import Peg.Text.Cursor

namespace Peg.Literal

/-- The bytes that `word` takes at the front of a text. -/
def scan (noCase : Bool) : Text → Text → Option Nat
  | [], _ => some 0
  | _ :: _, [] => none
  | w :: ws, c :: r =>
    if Text.agree noCase c w then (scan noCase ws r).map (c.utf8Size + ·) else none

/-- The bytes that `word` takes at the front of a text when the case of ASCII letters is
    ignored. -/
def scanAscii : Text → Text → Option Nat
  | [], _ => some 0
  | _ :: _, [] => none
  | w :: ws, c :: r =>
    if c.toLower = w.toLower then (scanAscii ws r).map (c.utf8Size + ·) else none

/-- The two truth values, by their words. -/
def scanBool (noCase : Bool) (t : Text) : Option (Nat × Bool) :=
  let word (w : String) : Option Nat :=
    if noCase then scanAscii w.toList t else scan false w.toList t
  match word "true" with
  | some n => some (n, true)
  | none => (word "false").map fun n => (n, false)

end Peg.Literal
