/-
  Peg.Proofs.Expressions

  Arithmetic expressions apart from any parser: their syntax trees, the lexemes
  that a tree is written with, the value of a tree over a table of constants, and
  layouts, which put white space in front of every lexeme. Operators of one rank
  associate to the left, and so the tree of a chain grows on its left side.
-/
import Peg.Proofs.Numerals

namespace Peg.Calculator

-- ============================================================================
-- Lexemes
-- ============================================================================

/-- White space, as the class of that name has it. -/
def isSpace (c : Char) : Bool := CharClass.space.holds c

/-- A character that a name goes on with. -/
def isWordChar (c : Char) : Bool := c.isAlphanum || c == '_'

/-- A letter, then letters, digits and underscores. -/
def IsName (s : Text) : Prop :=
  ∃ a u, s = a :: u ∧ a.isAlpha = true ∧ ∀ d ∈ u, isWordChar d = true

inductive Lexeme where
  | number (t : Text)
  | name (s : Text)
  /-- an operator or a bracket -/
  | mark (c : Char)
  /-- a plus or a minus in front of a factor -/
  | sign (c : Char)
  deriving DecidableEq, Repr

namespace Lexeme

def text : Lexeme → Text
  | number t => t
  | name s => s
  | mark c => [c]
  | sign c => [c]

/-- Numbers are as asked, and names stand for something. -/
def Valid (number : Text → Prop) (constants : Symbols Float) : Lexeme → Prop
  | .number t => number t
  | .name s => IsName s ∧ (constants.find? (String.ofList s)).isSome
  | .mark _ => True
  | .sign _ => True

end Lexeme

-- ============================================================================
-- Trees
-- ============================================================================

mutual

/-- `expression := term (('+' | '-') term)*` -/
inductive Expression where
  | term (t : Term)
  | add (e : Expression) (t : Term)
  | sub (e : Expression) (t : Term)

/-- `term := factor (('*' | '/') factor)*` -/
inductive Term where
  | factor (f : Factor)
  | mul (t : Term) (f : Factor)
  | div (t : Term) (f : Factor)

/-- `factor := name | number | '(' expression ')' | '-' factor | '+' factor` -/
inductive Factor where
  | number (t : Text)
  | name (s : Text)
  | bracket (e : Expression)
  | minus (f : Factor)
  | plus (f : Factor)

end

/-! ## Writing -/

mutual

def Expression.lexemes : Expression → List Lexeme
  | .term t => t.lexemes
  | .add e t => e.lexemes ++ .mark '+' :: t.lexemes
  | .sub e t => e.lexemes ++ .mark '-' :: t.lexemes

def Term.lexemes : Term → List Lexeme
  | .factor f => f.lexemes
  | .mul t f => t.lexemes ++ .mark '*' :: f.lexemes
  | .div t f => t.lexemes ++ .mark '/' :: f.lexemes

def Factor.lexemes : Factor → List Lexeme
  | .number t => [.number t]
  | .name s => [.name s]
  | .bracket e => .mark '(' :: (e.lexemes ++ [.mark ')'])
  | .minus f => .sign '-' :: f.lexemes
  | .plus f => .sign '+' :: f.lexemes

end

/-! ## Values -/

/-- The number that a text is read as. -/
def numberOf? (t : Text) : Option Float := (Real.read? t).map Real.toDouble

section Values

variable (constants : Symbols Float)

mutual

/-- The value of an expression, if its numbers can be read and its names stand for something. -/
def Expression.value? : Expression → Option Float
  | .term t => t.value?
  | .add e t => do return (← e.value?) + (← t.value?)
  | .sub e t => do return (← e.value?) - (← t.value?)

def Term.value? : Term → Option Float
  | .factor f => f.value?
  | .mul t f => do return (← t.value?) * (← f.value?)
  | .div t f => do return (← t.value?) / (← f.value?)

def Factor.value? : Factor → Option Float
  | .number t => numberOf? t
  | .name s => constants.find? (String.ofList s)
  | .bracket e => e.value?
  | .minus f => f.value?.map (- ·)
  | .plus f => f.value?

end

end Values

-- ============================================================================
-- Layouts
-- ============================================================================

/-- A lexeme with the white space in front of it. -/
structure Printed where
  blank : Text
  lexeme : Lexeme
  blank_space : ∀ c ∈ blank, isSpace c = true

/-- Lexemes one after the other, with white space. -/
abbrev Layout := List Printed

namespace Layout

def text (l : Layout) : Text := l.flatMap fun p => p.blank ++ p.lexeme.text

def lexemes (l : Layout) : List Lexeme := l.map (·.lexeme)

@[simp] theorem text_nil : text [] = [] := rfl

@[simp] theorem text_cons (p : Printed) (l : Layout) :
    text (p :: l) = p.blank ++ p.lexeme.text ++ l.text := rfl

@[simp] theorem text_append (l l' : Layout) : text (l ++ l') = l.text ++ l'.text :=
  List.flatMap_append

@[simp] theorem lexemes_nil : lexemes [] = [] := rfl

@[simp] theorem lexemes_cons (p : Printed) (l : Layout) :
    lexemes (p :: l) = p.lexeme :: l.lexemes := rfl

@[simp] theorem lexemes_append (l l' : Layout) : lexemes (l ++ l') = l.lexemes ++ l'.lexemes :=
  List.map_append

end Layout

/-- Not a sign with a name directly after it that starts like a word for a number. -/
def Apart (p q : Printed) : Prop :=
  ∀ c s, p.lexeme = .sign c → q.blank = [] → q.lexeme = .name s → ¬ Real.LooksNumeric s

/-- If this is a minus in front of a number that stands directly after it, the two are read as the
    negated number. -/
def ReadsNegated (p q : Printed) : Prop :=
  ∀ t, p.lexeme = .sign '-' → q.blank = [] → q.lexeme = .number t →
    numberOf? ('-' :: t) = (numberOf? t).map (- ·)

end Peg.Calculator
