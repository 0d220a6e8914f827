/-
  Peg.Gallery.Basic

  What the sample grammars are made of: short names for types, two keys, a few
  tables of words, and the actions that write down what they see.
-/
import Peg.Grammar.Notation
import Peg.Text.Quoted

namespace Peg.Gallery

open Peg.Notation

/-! ## Types -/

abbrev u8 : Ty := .int .u8
abbrev u32 : Ty := .int .u32
abbrev u64 : Ty := .int .u64
abbrev i16 : Ty := .int .i16
abbrev i32 : Ty := .int .i32
abbrev i64 : Ty := .int .i64
abbrev token : Ty := .user .token
abbrev employee : Ty := .user .employee

/-- A sample: a grammar with a name and the type of the slot that it is parsed into. -/
structure Sample where
  name : String
  target : Ty
  grammar : Grammar

/-! ## Keys -/

/-- A level of nesting, which is a value. -/
def level : Key := "Level"

/-- A count of hits, which is a cell. -/
def hits : Key := "Hits"

/-! ## Actions -/

/-- An optional number, as it is written down. -/
def optionText : Option Value → String
  | some (.int n) => s!"Some({n})"
  | _ => "None"

/-- Write down what is bound here. -/
def see (tag : String) : Grammar :=
  act
    (fun s e =>
      let level := optionText (e.get? level)
      let hits := optionText (e.get? hits)
      e.note s!"{tag} level={level} hits={hits} at={s.span.render}")
    eps

/-- A letter that adds one to the count of hits and writes both down. -/
def hit : Grammar :=
  act
    (fun _ e =>
      match e.attr, e.get? hits with
      | .char c, some (.int n) => (e.set hits (.int (n + 1))).note s!"{c}{n + 1}"
      | _, _ => e)
    alpha

/-- Write down the integer, where it was, and its text. -/
def say : Action := fun s e =>
  match e.attr with
  | .int n => e.note s!"{n} {s.span.render} {Text.quote s.matched.toList}"
  | _ => e

/-- Write the integer down and reject what has two digits. -/
def sayUpToNine : Action := fun s e =>
  match e.attr with
  | .int n => if n > 9 then (say s e).fail else say s e
  | _ => e

/-- Double the integer, in 32 bits. -/
def double32 : Action := fun _ e =>
  match e.attr with
  | .int n => { e with attr := .int (Int.bmod (n * 2) 0x100000000) }
  | _ => e

/-- Reject zero. -/
def failZero : Action := fun _ e =>
  match e.attr with
  | .int 0 => e.fail
  | _ => e

/-- Write down whether a rule variable that is an integer is in sight. -/
def noteVar : Action := fun s e => e.note (toString (e.ruleVarOf? s i32).isSome)

/-- What an action sees and did, in one line. -/
def sceneText (s : Scene) (e : Effect) : String :=
  s!"ActionContext \x7b span: {s.span.render}, pass: {e.passed}, " ++
    s!"has_rule_var: {s.varTy.isSome}, .. \x7d"

/-- Write down the situation before and after rejecting the match. -/
def noteSelf : Action := fun s e =>
  let rejected := (e.note (sceneText s e)).fail
  rejected.note (sceneText s rejected)

/-! ## Terminals -/

/-- A table of words with a value each, as a parser. -/
def table {α : Type} (t : Ty) (f : α → Value) (s : List (String × α)) : Grammar :=
  term (.symbols t (Symbols.ofList (s.map fun (w, v) => (w, f v))))

/-- The numerals from one to five. -/
def numerals : Grammar :=
  table u32 Value.int [("i", 1), ("ii", 2), ("iii", 3), ("iv", 4), ("v", 5)]

/-- Units of measurement; the last word has no value and does not count. -/
def units : Grammar := table .char Value.char (["kg", "k", "Km", "surplus"].zip ['K', 'k', 'M'])

/-- One decimal digit, as a number. -/
def oneDigit : Grammar := digits 1 1

/-- Two hexadecimal digits, as a byte. -/
def hexByte : Grammar := integer { ty := .u8, radix := 16, minDigits := 2, maxDigits := some 2 }

end Peg.Gallery
