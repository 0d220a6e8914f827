/-
  Peg.Calculator.Rules

  The grammar of arithmetic expressions:

      expression := term (('+' | '-') term)*
      term       := factor (('*' | '/') factor)*
      factor     := name | number | '(' expression ')' | '-' factor | '+' factor

  Every rule keeps a number in its variable, and actions on the parts of its body
  bring that number up to date. Names stand for the numbers of a table.
-/
import Peg.Grammar.Notation
import Peg.Parse.State

namespace Peg.Calculator

open Peg.Notation

/-! ## Rules -/

def expressionRule : Rule := { name := "expression", ty := .double }

def termRule : Rule := { name := "term", ty := .double }

def factorRule : Rule := { name := "factor", ty := .double }

/-! ## Actions -/

/-- Bring the number in the rule variable up to date with `f`. -/
def update (f : Float → Float) : Action := fun s e =>
  match e.ruleVarOf? s .double with
  | some (.double acc) => { e with ruleVar := .double (f acc) }
  | _ => e

/-- Bring the number in the rule variable up to date with the number that matched. -/
def combine (f : Float → Float → Float) : Action := fun s e =>
  match e.attr with
  | .double v => update (f · v) s e
  | _ => e

/-- The number that matched becomes the number of the rule. -/
def assign : Action := combine fun _ v => v

/-- The negated number that matched becomes the number of the rule. -/
def negate : Action := combine fun _ v => -v

/-- The number of the name that matched becomes the number of the rule. Names without one are
    rejected, so that words which are numbers can be read as such. -/
def resolve (constants : Symbols Float) : Action := fun s e =>
  match e.attr with
  | .text name =>
    match constants.find? name with
    | some v => update (fun _ => v) s e
    | none => e.fail
  | _ => e

/-! ## Bodies -/

/-- An operator and what follows it, which has to be there. -/
def applied (operator : Char) (operand : Rule) (f : Float → Float → Float) : Grammar :=
  act (combine f) (lit operator >>> expect (call operand))

def expressionBody : Grammar :=
  discard
    (act assign (call termRule) >>>
      kleene (orElse (applied '+' termRule (· + ·)) (applied '-' termRule (· - ·))))

def termBody : Grammar :=
  discard
    (act assign (call factorRule) >>>
      kleene (orElse (applied '*' factorRule (· * ·)) (applied '/' factorRule (· / ·))))

/-- An expression in brackets. -/
def bracketed : Grammar := lit '(' >>> expect (call expressionRule) >>> expect (lit ')')

def factorBody (constants : Symbols Float) : Grammar :=
  discard
    (orElse
      (orElse
        (orElse (orElse (act (resolve constants) identifier) (act assign double))
          (act assign bracketed))
        (act negate (lit '-' >>> expect (call factorRule))))
      (act assign (lit '+' >>> expect (call factorRule))))

/-- The rules over a table of constants. -/
def definitions (constants : Symbols Float) : List (String × Definition) :=
  [(expressionRule.name, ⟨expressionBody, false⟩),
    (termRule.name, ⟨termBody, false⟩),
    (factorRule.name, ⟨factorBody constants, false⟩)]

end Peg.Calculator
