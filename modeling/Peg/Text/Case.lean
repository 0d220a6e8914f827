/-
  Peg.Text.Case

  Full case mapping of one character, and the comparison of characters that
  ignores case: two characters agree when they are equal or have the same
  lower case form.
-/
import Peg.Text.CaseTable

namespace Peg.Text

/-- The image of a code point under the first run that holds it. -/
def CaseRun.image? (r : CaseRun) (n : Nat) : Option Nat :=
  if r.first ≤ n ∧ n ≤ r.last ∧ (n - r.first) % r.step = 0 then
    some ((n : Int) + r.shift).toNat
  else
    none

/-- Look a character up in a table of sequences and a table of runs; a character in
    neither is its own image. -/
def mapCase (sequences : List (Nat × List Nat)) (runs : List CaseRun) (c : Char) : List Char :=
  match sequences.lookup c.toNat with
  | some ns => ns.map Char.ofNat
  | none =>
    match runs.findSome? (·.image? c.toNat) with
    | some n => [Char.ofNat n]
    | none => [c]

/-- The lower case form of a character, which may be a sequence. -/
def lowerCase (c : Char) : List Char :=
  if c.toNat < 128 then [c.toLower] else mapCase lowerSequences lowerRuns c

/-- The upper case form of a character, which may be a sequence. -/
def upperCase (c : Char) : List Char :=
  if c.toNat < 128 then [c.toUpper] else mapCase upperSequences upperRuns c

/-- Equality of characters up to case. -/
def sameLetter (a b : Char) : Bool :=
  a == b || lowerCase a == lowerCase b

/-- Equality of characters, up to case when `noCase` is set. -/
def agree (noCase : Bool) (a b : Char) : Bool :=
  if noCase then sameLetter a b else a == b

theorem sameLetter_self (c : Char) : sameLetter c c = true := by simp [sameLetter]

theorem agree_self (noCase : Bool) (c : Char) : agree noCase c c = true := by
  cases noCase <;> simp [agree, sameLetter_self]

end Peg.Text
