/-
  Peg.Calculator.Basic

  A calculator over numbers of 64 bits: a table of named constants, and the
  evaluation of expressions with white space between their tokens.
-/
import Peg.Calculator.Rules
import Peg.Diagnostic.Diagnostic
import Peg.Entry

namespace Peg

structure Calculator where
  constants : Symbols Float

namespace Calculator

/-! ## Errors -/

/-- Why a text has no value. -/
inductive Error where
  /-- it does not start with an expression -/
  | empty
  /-- something follows the expression -/
  | trailing (position : Nat)
  /-- a commit point missed -/
  | expected (failure : Failure)
  /-- the parse came to no answer -/
  | stopped (why : Stop)
  deriving DecidableEq, Repr

namespace Error

def message : Error → String
  | empty => "expected an expression"
  | trailing position => s!"unexpected input at offset {position}"
  | expected failure => failure.message
  | stopped why => why.message

def position : Error → Nat
  | empty => 0
  | trailing position => position
  | expected failure => failure.position
  | stopped _ => 0

def toDiagnostic : Error → Diagnostic
  | empty =>
    (Diagnostic.error.withMessage "expected an expression").withLabel (.point 0)
      "nothing to evaluate"
  | trailing position =>
    ((Diagnostic.error.withMessage "unexpected input after expression").withLabel
      (.point position) "expression ends here").withNote "operators are `+`, `-`, `*` and `/`"
  | expected failure => .ofFailure failure
  | stopped why => Diagnostic.error.withMessage why.message

/-- The message of a report with a caret. -/
def reportMessage : Error → String
  | empty => Report.expecting "expression"
  | trailing _ => "Error! Unexpected input here:"
  | expected failure => Report.expecting failure.which
  | stopped why => why.message

end Error

/-! ## Constants -/

/-- A calculator that knows the number of the circle, twice that number, and the base of the
    natural logarithm. -/
def standard : Calculator :=
  ⟨.ofList [("pi", 3.141592653589793), ("e", 2.718281828459045), ("tau", 6.283185307179586)]⟩

def define (c : Calculator) (name : String) (value : Float) : Calculator :=
  ⟨c.constants.insert name value⟩

def undefine (c : Calculator) (name : String) : Calculator := ⟨c.constants.erase name⟩

/-- The written form of the calculator itself. -/
def render (c : Calculator) : String :=
  s!"Calculator \x7b constants: {c.constants.render} \x7d"

/-! ## Evaluation -/

def program (c : Calculator) : Program :=
  { grammar := Notation.call expressionRule
    skipper := some Notation.space
    rules := definitions c.constants }

/-- The value of a run that took the whole text; otherwise a recorded failure comes first. -/
def valueOf (r : Program.Run) : Except Error Float :=
  match r.result.failure with
  | some failure => .error (.expected failure)
  | none =>
    if !r.result.matched then .error .empty
    else if !r.result.isFull then .error (.trailing r.result.position)
    else
      match r.slot with
      | .double v => .ok v
      | _ => .error .empty

/-- The value of an expression. -/
def evaluate (c : Calculator) (source : String) : Except Error Float :=
  match c.program.run {} .double (.double 0) source.toList with
  | .error h => .error (.stopped h.why)
  | .ok r => valueOf r

end Calculator

end Peg
