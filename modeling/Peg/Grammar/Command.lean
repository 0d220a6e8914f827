/-
  Peg.Grammar.Command

  Actions written as lists of commands, for grammars that come as data. Two
  keys have a meaning here: a depth, which is a value, and a counter, which is
  a cell.
-/
import Peg.Grammar.Basic

namespace Peg

def Key.depth : Key := "Depth"

def Key.counter : Key := "Counter"

inductive Command where
  /-- write down what is in sight -/
  | log (tag : String)
  /-- reject the match -/
  | fail
  /-- reject the match of an integer above `n` -/
  | failAbove (n : Int)
  /-- replace the attribute -/
  | set (v : Value)
  /-- copy the attribute into the rule variable -/
  | varSet
  /-- append the attribute to the rule variable -/
  | varPush
  /-- add the attribute to the rule variable -/
  | varAdd
  /-- add one to the counter -/
  | bump

namespace Command

/-- The rule variable with `v` appended; anything but a list gives way to one. -/
def pushed (v : Value) : Value → Value
  | .seq vs => .seq (vs ++ [v])
  | _ => .seq [v]

/-- The rule variable with `v` added; only integers are added, and an integer replaces anything
    else. -/
def added (v : Value) (old : Value) : Value :=
  match v, old with
  | .int n, .int m => .int (m + n)
  | .int n, _ => .int n
  | _, old => old

def event (tag : String) (s : Scene) (e : Effect) : ActionEvent :=
  { tag, span := s.span, matched := s.matched, attr := e.attr, passed := e.passed
    inputLength := Text.byteLength s.source
    depth := e.get? Key.depth, counter := e.get? Key.counter, ruleVar := e.ruleVar? s }

/-- Change the rule variable, if one is in sight. -/
def onVar (s : Scene) (e : Effect) (f : Value → Value) : Effect :=
  if s.varTy.isSome then { e with ruleVar := f e.ruleVar } else e

def run (s : Scene) (e : Effect) : Command → Effect
  | .log tag => e.log (.acted (event tag s e))
  | .fail => e.fail
  | .failAbove n =>
    match e.attr with
    | .int m => if m > n then e.fail else e
    | _ => e
  | .set v => { e with attr := v }
  | .varSet => onVar s e fun _ => e.attr
  | .varPush => onVar s e (pushed e.attr)
  | .varAdd => onVar s e (added e.attr)
  | .bump =>
    match e.get? Key.counter with
    | some (.int n) => e.set Key.counter (.int (n + 1))
    | _ => e

/-- The action that runs commands in order. -/
def action (commands : List Command) : Action := fun s e => commands.foldl (run s) e

/-- What a rule does about a failure: render a report, or write the failure down under a tag. -/
inductive Response where
  | report
  | log (tag : String)

def Response.run (rule : String) (f : Failure) (s : Scene) (e : Effect) : Response → Effect
  | .report => FailureHook.report f s e
  | .log tag =>
    e.log (.missed { tag, rule, failure := f, span := s.span, ruleVar := e.ruleVar? s })

/-- The hook that gives these responses in order. -/
def hook (rule : String) (responses : List Response) : FailureHook := fun f s e =>
  responses.foldl (Response.run rule f s) e

end Command

end Peg
