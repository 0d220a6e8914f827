/-
  Peg.Parse.Run

  The behaviour of grammars: the table of node behaviours tied to itself, with
  fuel for the depth of the recursion.
-/
import Peg.Parse.Node

namespace Peg

/-- Every so many levels the recursion goes on with a fresh stack. -/
def stackSegment : Nat := 1024

/-- Evaluate on a stack of its own. -/
def onFreshStack {α : Type} (f : Unit → α) : α := (Task.spawn f .dedicated).get

theorem onFreshStack_eq {α : Type} (f : Unit → α) : onFreshStack f = f () := rfl

/-- Parse with a grammar in a context. The fuel bounds how deep parsers call each other. -/
def parse (env : Env) : Nat → Grammar → Ctx → State → Outcome
  | 0, _, _, st => .stopped ⟨.exhausted, st⟩
  | n + 1, g, ctx, st =>
    if n % stackSegment = 0 then onFreshStack fun _ => Node.step env (parse env n) g ctx st
    else Node.step env (parse env n) g ctx st

@[simp] theorem parse_zero (env : Env) (g : Grammar) (ctx : Ctx) (st : State) :
    parse env 0 g ctx st = .stopped ⟨.exhausted, st⟩ := rfl

theorem parse_succ (env : Env) (n : Nat) (g : Grammar) (ctx : Ctx) (st : State) :
    parse env (n + 1) g ctx st = Node.step env (parse env n) g ctx st := by
  rw [parse, onFreshStack_eq, ite_self]

end Peg
