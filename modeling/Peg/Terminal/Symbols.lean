/-
  Peg.Terminal.Symbols

  Tables of words with a value each, kept as a tree with one character on each
  edge. Looking a text up finds the longest word it starts with.
-/
import Peg.Text.Case
import Peg.Text.Cursor

namespace Peg

/-- A tree of words: the value of the word that ends here, and the trees behind each next
    character. -/
inductive Trie (α : Type) where
  | node (value : Option α) (children : List (Char × Trie α))

namespace Trie

variable {α : Type}

def empty : Trie α := .node none []

instance : Inhabited (Trie α) := ⟨empty⟩

def value : Trie α → Option α
  | .node v _ => v

def children : Trie α → List (Char × Trie α)
  | .node _ cs => cs

/-- No word ends here or further down. -/
def isEmpty (t : Trie α) : Bool := t.value.isNone && t.children.isEmpty

/-- The tree behind a character. -/
def child? (c : Char) : List (Char × Trie α) → Option (Trie α)
  | [] => none
  | (k, t) :: r => if k = c then some t else child? c r

/-- Put a tree behind a character. -/
def setChild (c : Char) (u : Trie α) : List (Char × Trie α) → List (Char × Trie α)
  | [] => [(c, u)]
  | (k, t) :: r => if k = c then (k, u) :: r else (k, t) :: setChild c u r

/-- Leave nothing behind a character. -/
def dropChild (c : Char) : List (Char × Trie α) → List (Char × Trie α)
  | [] => []
  | (k, t) :: r => if k = c then r else (k, t) :: dropChild c r

/-- The value of a word. -/
def find? : Text → Trie α → Option α
  | [], t => t.value
  | c :: w, t => (child? c t.children).bind (find? w)

/-- Give a word a value. -/
def insert : Text → α → Trie α → Trie α
  | [], v, t => .node (some v) t.children
  | c :: w, v, t =>
    .node t.value (setChild c (insert w v ((child? c t.children).getD empty)) t.children)

/-- Take a word out and tell its value. A branch that holds nothing afterwards goes with it. -/
def remove : Text → Trie α → Option α × Trie α
  | [], t => (t.value, .node none t.children)
  | c :: w, t =>
    match child? c t.children with
    | none => (none, t)
    | some u =>
      let (removed, u') := remove w u
      (removed,
        .node t.value (if u'.isEmpty then dropChild c t.children else setChild c u' t.children))

/-- The longest word that a text starts with, after `consumed` bytes; of two equally long ones the
    one found later. The branch of the very character is searched first, then, when case is
    ignored, those that differ from it in case. -/
def longest (noCase : Bool) : Text → Nat → Trie α → Option (Nat × α) → Option (Nat × α)
  | rest, consumed, t, best =>
    -- a word that ends here replaces one that is not longer
    let best :=
      match t.value with
      | some v => if best.all (fun b => b.1 ≤ consumed) then some (consumed, v) else best
      | none => best
    match rest with
    | [] => best
    | c :: r =>
      let consumed := consumed + c.utf8Size
      let best :=
        match child? c t.children with
        | some u => longest noCase r consumed u best
        | none => best
      -- without case the other children that agree are searched after the exact one
      if noCase then
        t.children.foldl
          (fun best (k, u) =>
            if k != c && Text.lowerCase k == Text.lowerCase c then
              longest noCase r consumed u best
            else best)
          best
      else best

end Trie

/-- A table of words, with how many there are. -/
structure Symbols (α : Type) where
  root : Trie α
  size : Nat

namespace Symbols

variable {α : Type}

def empty : Symbols α := ⟨.empty, 0⟩

instance : Inhabited (Symbols α) := ⟨empty⟩

def isEmpty (s : Symbols α) : Bool := s.size == 0

/-- The value of a word. -/
def find? (s : Symbols α) (word : String) : Option α := s.root.find? word.toList

/-- Give a word a value, in place of the one it had. -/
def insert (s : Symbols α) (word : String) (v : α) : Symbols α :=
  ⟨s.root.insert word.toList v, if (s.find? word).isSome then s.size else s.size + 1⟩

/-- Take a word out and tell its value. -/
def remove (s : Symbols α) (word : String) : Option α × Symbols α :=
  let (removed, root) := s.root.remove word.toList
  (removed, ⟨root, if removed.isSome then s.size - 1 else s.size⟩)

/-- The table without a word. -/
def erase (s : Symbols α) (word : String) : Symbols α := (s.remove word).2

/-- The table of these words; a later value replaces an earlier one. -/
def ofList (pairs : List (String × α)) : Symbols α :=
  pairs.foldl (fun s p => s.insert p.1 p.2) empty

/-- The table of words and values listed side by side, as far as both go. -/
def ofParallel (words : List String) (values : List α) : Symbols α := ofList (words.zip values)

/-- The longest word that a text starts with: its bytes in the text, and its value. -/
def scan (s : Symbols α) (noCase : Bool) (t : Text) : Option (Nat × α) :=
  s.root.longest noCase t 0 none

/-- The written form of the table itself. -/
def render (s : Symbols α) : String := s!"Symbols \x7b len: {s.size} \x7d"

end Symbols

end Peg
