/-
  Peg.Text.Quoted

  Characters and texts in quotes, with everything a reader could not see or tell
  apart written as an escape: the quote itself, the backslash, the common
  controls by name, and any other invisible or joining character by its number.
-/
import Peg.Text.PrintTable
import Peg.Text.Cursor

namespace Peg.Text

def inRanges (ranges : List (Nat × Nat)) (n : Nat) : Bool :=
  ranges.any fun (lo, hi) => lo ≤ n && n ≤ hi

/-- The character is shown as it is. -/
def isVisible (c : Char) : Bool :=
  let n := c.toNat
  if n < 127 then 32 ≤ n
  else !inRanges extenderRanges n && !inRanges invisibleRanges n

/-- The number of a character between braces, in lower case hexadecimal digits. -/
def escapeByNumber (c : Char) : Text :=
  '\\' :: 'u' :: '\x7b' :: (Nat.toDigits 16 c.toNat ++ ['\x7d'])

/-- One character between quotes of the kind `quote`. -/
def escape (quote c : Char) : Text :=
  if c = '\x00' then ['\\', '0']
  else if c = '\t' then ['\\', 't']
  else if c = '\r' then ['\\', 'r']
  else if c = '\n' then ['\\', 'n']
  else if c = quote ∨ c = '\\' then ['\\', c]
  else if isVisible c then [c]
  else escapeByNumber c

/-- A character in single quotes. -/
def quoteChar (c : Char) : String := String.ofList ('\'' :: (escape '\'' c ++ ['\'']))

/-- A text in double quotes. -/
def quote (t : Text) : String := String.ofList ('"' :: (t.flatMap (escape '"') ++ ['"']))

end Peg.Text
