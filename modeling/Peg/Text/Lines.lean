/-
  Peg.Text.Lines

  Lines and columns of byte offsets. A line ends at a line feed, at a carriage
  return, or at the pair of both, which counts once. Lines and columns count
  from one; columns count characters.
-/
import Peg.Text.Cursor

namespace Peg

/-- Where the lines of a text start, in bytes; the first starts at zero. -/
structure LineTable where
  starts : List Nat
  deriving DecidableEq, Repr

namespace LineTable

/-- The starts of the lines after the first, for a text that begins at `offset`. -/
def startsFrom (offset : Nat) : Text → List Nat
  | [] => []
  -- the pair comes first, so that it counts once
  | '\r' :: '\n' :: r => (offset + 2) :: startsFrom (offset + 2) r
  | c :: r =>
    if c = '\n' ∨ c = '\r' then
      (offset + 1) :: startsFrom (offset + 1) r
    else
      startsFrom (offset + c.utf8Size) r

def ofText (t : Text) : LineTable := ⟨0 :: startsFrom 0 t⟩

/-- How many lines there are. -/
def count (table : LineTable) : Nat := table.starts.length

/-- The line that holds byte `offset`: the number of lines that start at or before it. -/
def lineOf (table : LineTable) (offset : Nat) : Nat :=
  max 1 (table.starts.countP (· ≤ offset))

/-- Where line `n` starts. -/
def startOf? (table : LineTable) (n : Nat) : Option Nat :=
  if n = 0 then none else table.starts[n - 1]?

/-- Line and column of byte `offset` of `text`. An offset beyond the end counts as the end;
    one inside a character has column one. -/
def position (table : LineTable) (text : Text) (offset : Nat) : Nat × Nat :=
  let line := table.lineOf offset
  let start := (table.startOf? line).getD 0
  let before := (Text.slice? text start (min offset (Text.byteLength text))).getD []
  (line, before.length + 1)

/-- Line `n` of `text` without its terminator. -/
def textOf? (table : LineTable) (text : Text) (n : Nat) : Option Text := do
  let start ← table.startOf? n
  let rest ← Text.dropBytes? text start
  return rest.takeWhile fun c => c != '\r' && c != '\n'

end LineTable

/-- Line and column of byte `offset`, found by looking at the text before it only. When the
    offset is no character boundary, the whole text is looked at. -/
def lineColumn (text : Text) (offset : Nat) : Nat × Nat :=
  (LineTable.ofText ((Text.takeBytes? text offset).getD text)).position text offset

end Peg
