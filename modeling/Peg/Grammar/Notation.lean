/-
  Peg.Grammar.Notation

  Writing grammars: names for the common terminals, characters and words as
  parsers, and operators. Sequences flatten as they are written, up to the
  width of a tuple; then the sequence so far becomes the first part of the next.
-/
import Peg.Grammar.Basic

namespace Peg.Notation

/-! ## Terminals -/

def term (t : Terminal) : Grammar := .terminal t

/-- A fixed character. -/
def lit (c : Char) : Grammar := term (.lit c)

/-- A fixed word. -/
def word (s : String) : Grammar := term (.word s.toList)

/-- A fixed word that is yielded as it was written. -/
def string (s : String) : Grammar := term (.string s.toList)

/-- A fixed character that is yielded. -/
def char (c : Char) : Grammar := term (.char (.single c))

def charRange (lo hi : Char) : Grammar := term (.char (.range lo hi))

def charSet (s : String) : Grammar := term (.char (.set s.toList))

/-- Any character but one. -/
def charNot (c : Char) : Grammar := term (.char (.negated (.single c)))

def anyChar : Grammar := term (.char .any)

def cls (k : CharClass) : Grammar := term (.char (.named k))

def alpha : Grammar := cls .alpha

def alnum : Grammar := cls .alnum

def digit : Grammar := cls .digit

def upper : Grammar := cls .upper

def lower : Grammar := cls .lower

def space : Grammar := cls .space

def blank : Grammar := cls .blank

def integer (n : Integer) : Grammar := term (.integer n)

def uint : Grammar := integer { ty := .u32 }

def ulong : Grammar := integer { ty := .u64 }

def ushort : Grammar := integer { ty := .u16 }

def bin : Grammar := integer { ty := .u32, radix := 2 }

def oct : Grammar := integer { ty := .u32, radix := 8 }

def hex : Grammar := integer { ty := .u32, radix := 16 }

def int : Grammar := integer { ty := .i32, allowSign := true }

def long : Grammar := integer { ty := .i64, allowSign := true }

def short : Grammar := integer { ty := .i16, allowSign := true }

/-- A natural number of `min` to `max` decimal digits. -/
def digits (min max : Nat) : Grammar :=
  integer { ty := .u32, minDigits := min, maxDigits := some max }

def double : Grammar := term .double

def single : Grammar := term .single

def bool : Grammar := term .bool

def eps : Grammar := .eps .always

def epsIf (holds : Bool) : Grammar := .eps (.fixed holds)

def eoi : Grammar := term .eoi

def eol : Grammar := term .eol

/-! ## Parsers from characters and words -/

/-- What can stand for a parser. -/
class AsGrammar (α : Type) where
  asGrammar : α → Grammar

export AsGrammar (asGrammar)

instance : AsGrammar Grammar := ⟨id⟩

instance : AsGrammar Char := ⟨lit⟩

instance : AsGrammar String := ⟨word⟩

/-! ## Operators -/

/-- One more part of a sequence. -/
def andThen (p q : Grammar) : Grammar :=
  match p with
  | .seq ps => if ps.length < tupleWidth then .seq (ps ++ [q]) else .seq [.seq ps, q]
  | p => .seq [p, q]

instance {α : Type} [AsGrammar α] : HShiftRight Grammar α Grammar :=
  ⟨fun p q => andThen p (asGrammar q)⟩

/-- The first, or else the second. -/
def orElse {α : Type} [AsGrammar α] (p : Grammar) (q : α) : Grammar := .alt p (asGrammar q)

/-- The first, unless the second matches. -/
def butNot {α : Type} [AsGrammar α] (p : Grammar) (q : α) : Grammar := .diff p (asGrammar q)

/-- One or more of the first, with the second between them. -/
def sepBy {α : Type} [AsGrammar α] (p : Grammar) (q : α) : Grammar := .list p (asGrammar q)

def opt {α : Type} [AsGrammar α] (p : α) : Grammar := .opt (asGrammar p)

def expect {α : Type} [AsGrammar α] (p : α) : Grammar := .expect (asGrammar p)

def notAhead {α : Type} [AsGrammar α] (p : α) : Grammar := .notAhead (asGrammar p)

def flag {α : Type} [AsGrammar α] (p : α) : Grammar := .flag (asGrammar p)

def kleene (p : Grammar) : Grammar := .kleene p

def plus (p : Grammar) : Grammar := .plus p

/-- Exactly so many. -/
def exactly (n : Nat) (p : Grammar) : Grammar := .times n (some n) p

def between (lo hi : Nat) (p : Grammar) : Grammar := .times lo (some hi) p

def atLeast (n : Nat) (p : Grammar) : Grammar := .times n none p

/-- So many copies in a row. -/
def inRow (n : Nat) (p : Grammar) : Grammar := (List.replicate (n - 1) p).foldl andThen p

/-! ## Directives -/

def ahead {α : Type} [AsGrammar α] (p : α) : Grammar := .ahead (asGrammar p)

def raw {α : Type} [AsGrammar α] (p : α) : Grammar := .raw (asGrammar p)

def discard {α : Type} [AsGrammar α] (p : α) : Grammar := .discard (asGrammar p)

def lexeme {α : Type} [AsGrammar α] (p : α) : Grammar := .lexeme (asGrammar p)

def noSkip {α : Type} [AsGrammar α] (p : α) : Grammar := .noSkip (asGrammar p)

def skip {α : Type} [AsGrammar α] (p : α) : Grammar := .skip (asGrammar p)

def skipWith {α β : Type} [AsGrammar α] [AsGrammar β] (s : α) (p : β) : Grammar :=
  .skipWith (asGrammar s) (asGrammar p)

def noCase {α : Type} [AsGrammar α] (p : α) : Grammar := .noCase (asGrammar p)

def seek (p : Grammar) : Grammar := .seek p

def group (p : Grammar) : Grammar := .group p

def into (t : Ty) (p : Grammar) : Grammar := .into t p

/-- Yield an integer as one of a narrower type; no match when it does not fit. -/
def narrowTo (k : IntTy) (p : Grammar) : Grammar :=
  .narrow (.int k)
    (fun
      | .int n => if k.holds n then some (.int n) else none
      | _ => none)
    p

/-- Yield the character with a number; no match when there is none. -/
def narrowToChar (p : Grammar) : Grammar :=
  .narrow .char
    (fun
      | .int n => if n.toNat.isValidChar then some (.char (Char.ofNat n.toNat)) else none
      | _ => none)
    p

/-- Run an action on each match. -/
def act (f : Action) (p : Grammar) : Grammar := .action p f

/-- Yield a value without looking at the text. -/
def yields (t : Ty) (v : Value) : Grammar := .attr t v

/-- Bind a key to a value inside. -/
def withValue (key : Key) (n : Int) (p : Grammar) : Grammar := .bind key (.own (.int n)) p

/-- Bind a key to a cell that starts with `n` inside. -/
def withCell (key : Key) (n : Int) (p : Grammar) : Grammar := .bind key (.shared 0 (.int n)) p

/-- Bind a key to a cell of its own inside, which starts with zero each time. -/
def withLocal (key : Key) (p : Grammar) : Grammar := .bind key (.fresh (.int 0)) p

/-- Hide a key inside. -/
def without (key : Key) (p : Grammar) : Grammar := .hide key p

def call (r : Rule) : Grammar := .rule r

/-- A rule with its body. -/
def defining (r : Rule) (body : Grammar) : Grammar := .define r false body

/-- A rule with a body that fills its attribute in spite of actions. -/
def definingForced (r : Rule) (body : Grammar) : Grammar := .define r true body

/-- A letter, then letters, digits and underscores, as one piece of text. -/
def identifier : Grammar := lexeme (raw (alpha >>> kleene (orElse alnum '_')))

end Peg.Notation
