/-
  Peg.Diagnostic.Diagnostic

  Structured messages about a text: a severity, a message, labelled spans and
  notes, and their plain one-block form.
-/
import Peg.Diagnostic.Failure

namespace Peg

inductive Severity where
  | error
  | warning
  | note
  deriving DecidableEq, Repr

def Severity.word : Severity → String
  | .error => "error"
  | .warning => "warning"
  | .note => "note"

/-- The name of the severity itself. -/
def Severity.label : Severity → String
  | .error => "Error"
  | .warning => "Warning"
  | .note => "Note"

/-- A span with an explanation. A primary label marks the place of the fault. -/
structure Label where
  span : Span
  message : String
  primary : Bool
  deriving DecidableEq, Repr

structure Diagnostic where
  severity : Severity
  message : String := ""
  labels : List Label := []
  notes : List String := []
  deriving DecidableEq, Repr

namespace Diagnostic

def error : Diagnostic := { severity := .error }

def warning : Diagnostic := { severity := .warning }

def withMessage (d : Diagnostic) (message : String) : Diagnostic := { d with message }

/-- One more label, marking the place of the fault. -/
def withLabel (d : Diagnostic) (span : Span) (message : String) : Diagnostic :=
  { d with labels := d.labels ++ [⟨span, message, true⟩] }

/-- One more label, giving context. -/
def withSecondaryLabel (d : Diagnostic) (span : Span) (message : String) : Diagnostic :=
  { d with labels := d.labels ++ [⟨span, message, false⟩] }

def withNote (d : Diagnostic) (note : String) : Diagnostic := { d with notes := d.notes ++ [note] }

/-- The error for a commit point that missed. -/
def ofFailure (f : Failure) : Diagnostic :=
  (error.withMessage s!"expected {f.which}").withLabel f.span s!"expected {f.which} here"

def isError (d : Diagnostic) : Bool := d.severity == .error

/-- Where the first primary label points. -/
def primarySpan? (d : Diagnostic) : Option Span := (d.labels.find? (·.primary)).map (·.span)

/-- The message, then one line for each label and each note. -/
def render (d : Diagnostic) : String :=
  let labels := d.labels.map fun l => s!"\n  {l.span.render}: {l.message}"
  let notes := d.notes.map fun n => s!"\n  = note: {n}"
  s!"{d.severity.word}: {d.message}" ++ String.join labels ++ String.join notes

end Diagnostic

end Peg
