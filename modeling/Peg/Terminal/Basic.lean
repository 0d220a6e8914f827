/-
  Peg.Terminal.Basic

  The terminals that look at the text: each takes a number of bytes at the
  front of it and yields a value, or does not match.
-/
import Peg.Terminal.CharTest
import Peg.Terminal.Integer
import Peg.Terminal.Real
import Peg.Terminal.Symbols
import Peg.Attribute.Value

namespace Peg

inductive Terminal where
  /-- a character that passes a test, which is the value -/
  | char (t : CharTest)
  /-- a fixed character, without a value -/
  | lit (c : Char)
  /-- a fixed word, without a value -/
  | word (w : Text)
  /-- a fixed word; the value is how it was written -/
  | string (w : Text)
  | integer (n : Integer)
  | double
  | single
  | bool
  /-- the end of the text -/
  | eoi
  /-- a line terminator or the end of the text -/
  | eol
  /-- the longest word of a table, for its value of the given type -/
  | symbols (ty : Ty) (table : Symbols Value)

namespace Terminal

/-- The type of the value. -/
def ty : Terminal → Ty
  | .char _ => .char
  | .string _ => .text
  | .integer n => .int n.ty
  | .double => .double
  | .single => .single
  | .bool => .bool
  | .symbols t _ => t
  | .lit _ | .word _ | .eoi | .eol => .unused

/-- The bytes of a line terminator, or none at the end. -/
def scanEol : Text → Option Nat
  | '\r' :: '\n' :: _ => some 2
  | '\n' :: _ => some 1
  | '\r' :: _ => some 1
  | [] => some 0
  | _ :: _ => none

/-- The bytes that the terminal takes at the front of a text, and its value. -/
def scan (noCase : Bool) (rest : Text) : Terminal → Option (Nat × Value)
  | .char t =>
    match rest with
    | c :: _ => if t.test noCase c then some (c.utf8Size, .char c) else none
    | [] => none
  | .lit a =>
    match rest with
    | c :: _ => if Text.agree noCase c a then some (c.utf8Size, .unused) else none
    | [] => none
  | .word w => (Literal.scan noCase w rest).map fun n => (n, .unused)
  | .string w =>
    (Literal.scan noCase w rest).map fun n =>
      (n, .text (String.ofList ((Text.takeBytes? rest n).getD [])))
  | .integer n => (n.scan rest).map fun (len, v) => (len, .int v)
  | .double => scanReal fun x => .double x.toDouble
  | .single => scanReal fun x => .single x.toSingle
  | .bool => (Literal.scanBool noCase rest).map fun (n, b) => (n, .bool b)
  | .eoi => if rest.isEmpty then some (0, .unused) else none
  | .eol => (scanEol rest).map fun n => (n, .unused)
  | .symbols _ table => table.scan noCase rest
where
  scanReal (value : Real → Value) : Option (Nat × Value) := do
    let n ← Real.scan rest
    let x ← Real.read? (rest.take n)
    return (n, value x)

/-- The description of a terminal. -/
def what : Terminal → String
  | .char t => t.what
  | .lit c => Text.quoteChar c
  | .word w => Text.quote w
  | .string w => Text.quote w
  | .integer n => n.what
  | .double | .single => "real number"
  | .bool => "boolean"
  | .eoi => "end of input"
  | .eol => "end of line"
  | .symbols _ _ => "symbol"

end Terminal

end Peg
