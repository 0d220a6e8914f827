/-
  Peg.Diagnostic.Terminal

  Diagnostics for a terminal, with or without colours. Everything is first laid
  out as fragments, each with its style; colours only decide whether the styles
  are written as escape sequences around the fragments.
-/
import Peg.Diagnostic.Diagnostic
import Peg.Text.Lines

namespace Peg

/-! ## Styles -/

inductive Style where
  | plain
  | error
  | warning
  | note
  | bold
  | secondary
  deriving DecidableEq, Repr

/-- The parameters of the escape sequence that switches the style on. -/
def Style.code : Style → String
  | .plain => ""
  | .error => "1;31"
  | .warning => "1;33"
  | .note => "1;36"
  | .bold => "1"
  | .secondary => "1;34"

/-- An escape sequence with these parameters. -/
def escapeSequence (code : String) : String := "\x1b[" ++ code ++ "m"

/-- A piece of output in one style. -/
structure Fragment where
  style : Style
  text : String
  deriving DecidableEq, Repr

namespace Fragment

def plain (text : String) : Fragment := ⟨.plain, text⟩

/-- The written form; without colours the text alone. -/
def render (colors : Bool) (f : Fragment) : String :=
  if colors && f.style != .plain then
    escapeSequence f.style.code ++ f.text ++ escapeSequence "0"
  else
    f.text

end Fragment

/-! ## Colours -/

inductive ColorMode where
  | auto
  | always
  | never
  deriving DecidableEq, Repr

/-- Only the automatic mode asks whether the output is a terminal. -/
def ColorMode.usesColors (mode : ColorMode) (isTerminal : Bool) : Bool :=
  match mode with
  | .auto => isTerminal
  | .always => true
  | .never => false

/-! ## Layout -/

/-- The text that spans point into, with the name shown for it. -/
structure Source where
  name : String
  text : Text

def Severity.style : Severity → Style
  | .error => .error
  | .warning => .warning
  | .note => .note

def spaces (n : Nat) : String := String.ofList (List.replicate n ' ')

namespace Label

def style (l : Label) : Style := if l.primary then .error else .secondary

def marker (l : Label) : String := if l.primary then "-->" else ":::"

/-- A label without a text to show: its span in bytes. -/
def layoutBare (l : Label) : List Fragment :=
  [.plain s!"  {l.marker} {l.span.render}: ", ⟨l.style, l.message⟩, .plain "\n"]

/-- A label with the line it starts on, underlined for as many columns as the span has bytes. -/
def layoutIn (source : Source) (l : Label) : List Fragment :=
  let table := LineTable.ofText source.text
  let (line, column) := table.position source.text l.span.start
  let shown := String.ofList ((table.textOf? source.text line).getD [])
  let gutter := spaces (toString line).length
  let underline := String.ofList (List.replicate (max l.span.length 1) '^')
  [.plain s!"{gutter}{l.marker} {source.name}:{line}:{column}\n",
    .plain s!"{gutter} |\n",
    .plain s!"{line} | {shown}\n",
    .plain s!"{gutter} | {spaces (column - 1)}",
    ⟨l.style, s!"{underline} {l.message}"⟩,
    .plain "\n"]

def layout (source : Option Source) (l : Label) : List Fragment :=
  match source with
  | some s => l.layoutIn s
  | none => l.layoutBare

end Label

namespace Diagnostic

def layoutNote (note : String) : List Fragment :=
  [.plain "  = ", ⟨.bold, "note"⟩, .plain s!": {note}\n"]

/-- The headline, the labels, the notes, and an empty line. -/
def layout (source : Option Source) (d : Diagnostic) : List Fragment :=
  [⟨d.severity.style, d.severity.word⟩, ⟨.bold, s!": {d.message}"⟩, .plain "\n"] ++
    d.labels.flatMap (·.layout source) ++ d.notes.flatMap layoutNote ++ [.plain "\n"]

def plural (n : Nat) : String := if n = 1 then "" else "s"

/-- The closing line on how much was reported; nothing when nothing was. -/
def summary (errors warnings : Nat) : List Fragment :=
  let previous := if errors = 1 then "previous error" else s!"{errors} previous errors"
  let emitted := s!"{warnings} warning{plural warnings} emitted"
  if 0 < errors then
    if 0 < warnings then
      [⟨.error, "error"⟩, .plain s!": aborting due to {previous}; {emitted}\n"]
    else
      [⟨.error, "error"⟩, .plain s!": aborting due to {previous}\n"]
  else if 0 < warnings then
    [⟨.warning, "warning"⟩, .plain s!": {emitted}\n"]
  else
    []

/-- One call of an emitter. -/
inductive Call where
  | emit (d : Diagnostic)
  | summary (errors warnings : Nat)

def Call.layout (source : Option Source) : Call → List Fragment
  | .emit d => d.layout source
  | .summary errors warnings => Diagnostic.summary errors warnings

/-- What an emitter is asked to write: one diagnostic, several of them, or a summary. -/
inductive Request where
  | emit (d : Diagnostic)
  | emitAll (ds : List Diagnostic)
  | summary (errors warnings : Nat)

namespace Request

/-- Several diagnostics are written one after the other. -/
def calls : Request → List Call
  | .emit d => [.emit d]
  | .emitAll ds => ds.map .emit
  | .summary errors warnings => [.summary errors warnings]

def diagnostics : Request → List Diagnostic
  | .emit d => [d]
  | .emitAll ds => ds
  | .summary _ _ => []

theorem emit_mem_calls {r : Request} {d : Diagnostic} : .emit d ∈ r.calls ↔ d ∈ r.diagnostics := by
  cases r <;> simp [calls, diagnostics]

end Request

/-- Everything that a series of calls writes. -/
def transcript (colors : Bool) (source : Option Source) (calls : List Call) : String :=
  String.join ((calls.flatMap (·.layout source)).map (·.render colors))

end Diagnostic

end Peg
