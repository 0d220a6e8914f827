/-
  Peg.Diagnostic.Failure

  The record of a commit point that missed, and the rule by which records
  compete: the furthest position wins, and of records at one position the
  latest.
-/
import Peg.Text.Span

namespace Peg

/-- What was expected, and at which byte. -/
structure Failure where
  position : Nat
  which : String
  deriving DecidableEq, Repr

namespace Failure

def span (f : Failure) : Span := .point f.position

def message (f : Failure) : String := s!"expecting {f.which} at offset {f.position}"

/-- A record at `position` gives way to the one stored further on. -/
def shadowed (stored : Option Failure) (position : Nat) : Bool :=
  match stored with
  | some f => position < f.position
  | none => false

/-- Offer a record to the store. -/
def record (stored : Option Failure) (f : Failure) : Option Failure :=
  if shadowed stored f.position then stored else some f

theorem record_none (f : Failure) : record none f = some f := rfl

theorem record_isSome (stored : Option Failure) (f : Failure) :
    (record stored f).isSome = true := by
  cases stored with
  | none => rfl
  | some g => by_cases h : f.position < g.position <;> simp [record, shadowed, h]

end Failure

end Peg
