/-
  Peg.Diagnostic.Report

  Reports of one message at one place of a text: a header with the number of
  the line, the message, the line itself, and an indicator line with one
  underscore for each character before the place and a caret under it.
-/
import Peg.Diagnostic.Failure
import Peg.Text.Lines

namespace Peg

/-- The text reported on, the name shown for it, and how many underscores stand for a tab. -/
structure Report where
  source : Text
  file : Option String := none
  tabWidth : Nat := 4

namespace Report

def ofText (source : Text) : Report := { source }

def header (r : Report) (line : Nat) : String :=
  match r.file with
  | some file => s!"In file {file}, line {line}:"
  | none => s!"In line {line}:"

/-- What stands under one character of the line. -/
def underscore (r : Report) (c : Char) : Text :=
  if c = '\t' then List.replicate r.tabWidth '_' else ['_']

/-- The line under the text before the place, with the caret. -/
def indicator (r : Report) (before : Text) : Text := before.flatMap r.underscore ++ ['^', '_']

/-- The report of `message` at byte `position`; a position beyond the end counts as the end. -/
def render (r : Report) (position : Nat) (message : String) : String :=
  let position := min position (Text.byteLength r.source)
  let table := LineTable.ofText r.source
  let line := table.lineOf position
  let start := (table.startOf? line).getD 0
  let shown := (table.textOf? r.source line).getD []
  let before := (Text.slice? r.source start position).getD []
  r.header line ++ "\n" ++ message ++ "\n" ++ String.ofList shown ++ "\n" ++
    String.ofList (r.indicator before) ++ "\n"

/-- The message of a commit point that missed. -/
def expecting (which : String) : String := s!"Error! Expecting: {which} here:"

/-- The report of a commit point that missed. -/
def renderFailure (r : Report) (f : Failure) : String := r.render f.position (expecting f.which)

end Report

end Peg
