/-
  Peg.Grammar.Basic

  Grammars as data: terminals, the operators that combine parsers, the
  directives that change how a parser runs or what it yields, semantic actions,
  and rules, which are named and may be recursive.
-/
import Peg.Grammar.Action
import Peg.Terminal.Basic
import Peg.Attribute.Compose

namespace Peg

/-- The identity of a rule: its name, the type of its attribute, whether the attribute is filled
    even from a body with actions, and its hooks. The hook for matches may be absent. -/
structure Rule where
  name : String
  ty : Ty
  forced : Bool := false
  onSuccess : Option Action := none
  onError : FailureHook := FailureHook.none

/-- When a parser that takes nothing matches. -/
inductive Condition where
  | always
  | fixed (holds : Bool)
  /-- the answers one after the other, then never; the number tells scripts apart -/
  | scripted (id : Nat) (answers : List Bool)
  deriving DecidableEq, Repr

/-- What a directive binds under a key. -/
inductive Binding where
  /-- a value -/
  | own (v : Value)
  /-- a cell kept for the whole parse; the number tells cells apart -/
  | shared (id : Nat) (initial : Value)
  /-- a cell of its own for each time the directive is parsed -/
  | fresh (initial : Value)
  /-- the annotations of the parse -/
  | annotations

inductive Grammar where
  /-- skip, then match at the front of the text -/
  | terminal (t : Terminal)
  /-- match without taking anything, on a condition -/
  | eps (c : Condition)
  /-- yield a value without looking at the text -/
  | attr (ty : Ty) (v : Value)
  /-- one after the other -/
  | seq (ps : List Grammar)
  /-- the first, or else the second -/
  | alt (p q : Grammar)
  /-- the first, unless the second matches -/
  | diff (p q : Grammar)
  /-- one or more of the first, with the second between them -/
  | list (p d : Grammar)
  /-- the parser, or nothing -/
  | opt (p : Grammar)
  /-- look ahead: it would match -/
  | ahead (p : Grammar)
  /-- look ahead: it would not match -/
  | notAhead (p : Grammar)
  /-- as often as it matches -/
  | kleene (p : Grammar)
  /-- as often as it matches, at least once -/
  | plus (p : Grammar)
  /-- as often as it matches, at least `min` times and at most `max` -/
  | times (min : Nat) (max : Option Nat) (p : Grammar)
  /-- at the first place where it matches -/
  | seek (p : Grammar)
  /-- a commit point: record a failure when it does not match -/
  | expect (p : Grammar)
  /-- run an action on the match -/
  | action (p : Grammar) (f : Action)
  /-- yield the text taken -/
  | raw (p : Grammar)
  /-- yield nothing -/
  | discard (p : Grammar)
  /-- yield whether it matched, and match anyway -/
  | flag (p : Grammar)
  /-- yield the attribute merged into a fresh slot of the type -/
  | into (ty : Ty) (p : Grammar)
  /-- yield the attribute narrowed to the type; no match when that fails -/
  | narrow (ty : Ty) (f : Value → Option Value) (p : Grammar)
  /-- skip once before, and not inside -/
  | lexeme (p : Grammar)
  /-- do not skip inside -/
  | noSkip (p : Grammar)
  /-- skip again inside -/
  | skip (p : Grammar)
  /-- skip with another skipper inside -/
  | skipWith (s p : Grammar)
  /-- ignore case inside -/
  | noCase (p : Grammar)
  /-- bind a key inside -/
  | bind (key : Key) (b : Binding) (p : Grammar)
  /-- hide a key inside -/
  | hide (key : Key) (p : Grammar)
  /-- a rule by its name -/
  | rule (r : Rule)
  /-- a rule together with its body, which the rule's name stands for inside -/
  | define (r : Rule) (force : Bool) (body : Grammar)
  /-- the parser as one unit that sequences do not flatten -/
  | group (p : Grammar)
  /-- the parser as one unit of the type that holds any value, with or without actions -/
  | sealed (hasAction : Bool) (p : Grammar)

namespace Grammar

instance : Inhabited Grammar := ⟨.eps .always⟩

/-- The second after the first, as a commit point. -/
def thenExpect (p q : Grammar) : Grammar := .seq [p, .expect q]

/-! ## Types of attributes -/

mutual

/-- The type of the attribute, from the grammar alone. -/
def ty : Grammar → Ty
  | .terminal t => t.ty
  | .eps _ => .unused
  | .attr t _ => t
  | .seq ps => Ty.sequence (tys ps)
  | .alt p q => Ty.alternative (ty p) (ty q)
  | .diff p _ => ty p
  | .list p _ => (ty p).repeated
  | .opt p => Ty.optional (ty p)
  | .ahead _ => .unused
  | .notAhead _ => .unused
  | .kleene p => (ty p).repeated
  | .plus p => (ty p).repeated
  | .times _ _ p => (ty p).repeated
  | .seek p => ty p
  | .expect p => ty p
  | .action p _ => ty p
  | .raw _ => .text
  | .discard _ => .unused
  | .flag _ => .bool
  | .into t _ => t
  | .narrow t _ _ => t
  | .lexeme p => ty p
  | .noSkip p => ty p
  | .skip p => ty p
  | .skipWith _ p => ty p
  | .noCase p => ty p
  | .bind _ _ p => ty p
  | .hide _ p => ty p
  | .rule r => r.ty
  | .define r _ _ => r.ty
  | .group p => ty p
  | .sealed _ _ => .any

def tys : List Grammar → List Ty
  | [] => []
  | p :: ps => ty p :: tys ps

end

/-! ## Flags -/

mutual

/-- An action is attached somewhere below, as far as composites let it show. -/
def hasAction : Grammar → Bool
  | .terminal _ => false
  | .eps _ => false
  | .attr _ _ => false
  | .seq ps => anyAction ps
  | .alt p q => hasAction p || hasAction q
  | .diff p _ => hasAction p
  | .list p d => hasAction p || hasAction d
  | .opt p => hasAction p
  | .ahead _ => false
  | .notAhead _ => false
  | .kleene p => hasAction p
  | .plus p => hasAction p
  | .times _ _ p => hasAction p
  | .seek p => hasAction p
  | .expect p => hasAction p
  | .action _ _ => true
  | .raw p => hasAction p
  | .discard p => hasAction p
  | .flag p => hasAction p
  | .into _ _ => false
  | .narrow _ _ p => hasAction p
  | .lexeme p => hasAction p
  | .noSkip p => hasAction p
  | .skip p => hasAction p
  | .skipWith _ p => hasAction p
  | .noCase p => hasAction p
  | .bind _ _ p => hasAction p
  | .hide _ p => hasAction p
  | .rule _ => false
  | .define _ _ _ => false
  | .group _ => false
  | .sealed b _ => b

def anyAction : List Grammar → Bool
  | [] => false
  | p :: ps => hasAction p || anyAction ps

end

/-- The parser collects into a container itself. -/
def collects : Grammar → Bool
  | .list _ _ => true
  | .kleene _ => true
  | .plus _ => true
  | .times _ _ _ => true
  | .action p _ => collects p
  | .lexeme p => collects p
  | .noSkip p => collects p
  | .skip p => collects p
  | .skipWith _ p => collects p
  | .noCase p => collects p
  | .bind _ _ p => collects p
  | .hide _ p => collects p
  | _ => false

/-! ## Size -/

mutual

/-- How many nodes there are, the answers of scripts included. -/
def size : Grammar → Nat
  | .terminal _ => 1
  | .eps (.scripted _ answers) => 1 + answers.length
  | .eps _ => 1
  | .attr _ _ => 1
  | .seq ps => sizes ps + 1
  | .alt p q => size p + size q + 1
  | .diff p q => size p + size q + 1
  | .list p d => size p + size d + 1
  | .opt p => size p + 1
  | .ahead p => size p + 1
  | .notAhead p => size p + 1
  | .kleene p => size p + 1
  | .plus p => size p + 1
  | .times _ _ p => size p + 1
  | .seek p => size p + 1
  | .expect p => size p + 1
  | .action p _ => size p + 1
  | .raw p => size p + 1
  | .discard p => size p + 1
  | .flag p => size p + 1
  | .into _ p => size p + 1
  | .narrow _ _ p => size p + 1
  | .lexeme p => size p + 1
  | .noSkip p => size p + 1
  | .skip p => size p + 1
  | .skipWith s p => size s + size p + 1
  | .noCase p => size p + 1
  | .bind _ _ p => size p + 1
  | .hide _ p => size p + 1
  | .rule _ => 1
  | .define _ _ p => size p + 1
  | .group p => size p + 1
  | .sealed _ p => size p + 1

def sizes : List Grammar → Nat
  | [] => 0
  | p :: ps => size p + sizes ps

end

end Grammar

end Peg
