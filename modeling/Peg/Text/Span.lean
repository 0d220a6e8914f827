/-
  Peg.Text.Span

  Half-open byte ranges of a text.
-/
import Peg.Text.Cursor

namespace Peg

/-- The bytes from `start` up to, and without, `stop`. -/
structure Span where
  start : Nat
  stop : Nat
  deriving DecidableEq, Repr

namespace Span

/-- The span that stands for no place. -/
def dummy : Span := ⟨0, 0⟩

/-- The empty span at `n`. -/
def point (n : Nat) : Span := ⟨n, n⟩

/-- Number of bytes; an inverted span has none. -/
def length (s : Span) : Nat := s.stop - s.start

def isEmpty (s : Span) : Bool := s.stop ≤ s.start

/-- The smallest span that covers both. -/
def merge (s t : Span) : Span := ⟨min s.start t.start, max s.stop t.stop⟩

/-- The covered part of `text`, if both ends are character boundaries in order. -/
def slice? (s : Span) (text : Text) : Option Text := Text.slice? text s.start s.stop

/-- Both ends, with two dots between them. -/
def render (s : Span) : String := s!"{s.start}..{s.stop}"

end Span

end Peg
