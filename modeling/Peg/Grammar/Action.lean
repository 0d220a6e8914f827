/-
  Peg.Grammar.Action

  Semantic actions. An action sees where its subject matched and what is bound
  there, and answers with the attribute, a veto or none, new contents for the
  rule variable and for the cells in sight, and events for the log. It has no
  other way to touch the parse.
-/
import Peg.Attribute.Value
import Peg.Context.Chain
import Peg.Diagnostic.Report

namespace Peg

/-! ## Events -/

/-- What an action wrote down about a match. -/
structure ActionEvent where
  tag : String
  span : Span
  matched : String
  attr : Value
  passed : Bool
  inputLength : Nat
  depth : Option Value
  counter : Option Value
  ruleVar : Option Value

/-- What a rule wrote down about a commit point that missed inside it. -/
structure MissEvent where
  tag : String
  rule : String
  failure : Failure
  span : Span
  ruleVar : Option Value

/-- The observable events of a parse. -/
inductive Event where
  | note (text : String)
  | acted (e : ActionEvent)
  | missed (e : MissEvent)

/-! ## Annotations -/

/-- What annotated rules report to: the recorded spans in order, and the rendered reports. -/
structure Annotations where
  spans : List Span := []
  reports : List String := []
  deriving Repr

namespace Annotations

/-- Record a span; the result tells its number. -/
def annotate (a : Annotations) (span : Span) : Annotations × Nat :=
  ({ a with spans := a.spans ++ [span] }, a.spans.length)

/-- The span recorded under a tag. -/
def spanOf? (a : Annotations) (tag : Option Nat) : Option Span := tag.bind (a.spans[·]?)

/-- Render the report of a failure in a text. -/
def reportFailure (a : Annotations) (source : Text) (f : Failure) : Annotations :=
  { a with reports := a.reports ++ [(Report.ofText source).renderFailure f] }

end Annotations

/-! ## Actions -/

/-- What an action sees and cannot change. -/
structure Scene where
  /-- the whole text -/
  source : Text
  /-- what the subject took, leading skipped text excluded -/
  span : Span
  /-- the type of the rule variable in sight -/
  varTy : Option Ty
  /-- annotations are collected -/
  annotating : Bool

namespace Scene

/-- The text that the subject took. -/
def matched (s : Scene) : String := String.ofList ((s.span.slice? s.source).getD [])

end Scene

/-- What an action leaves behind. -/
structure Effect where
  attr : Value
  passed : Bool
  /-- the content of the rule variable; without meaning when none is in sight -/
  ruleVar : Value
  /-- the values in sight by key -/
  bound : List (Key × Value)
  annotations : Annotations
  /-- the events of this action, newest first -/
  events : List Event

namespace Effect

/-- The value in sight under a key. -/
def get? (e : Effect) (key : Key) : Option Value := e.bound.lookup key

/-- Change the value in sight under a key. Only cells keep the change. -/
def set (e : Effect) (key : Key) (v : Value) : Effect :=
  { e with bound := e.bound.map fun (k, w) => if k = key then (k, v) else (k, w) }

/-- Write an event down. -/
def log (e : Effect) (event : Event) : Effect := { e with events := event :: e.events }

def note (e : Effect) (text : String) : Effect := e.log (.note text)

/-- Reject the match. -/
def fail (e : Effect) : Effect := { e with passed := false }

/-- The rule variable, if one is in sight. -/
def ruleVar? (s : Scene) (e : Effect) : Option Value := s.varTy.map fun _ => e.ruleVar

/-- The rule variable, if one of type `t` is in sight. -/
def ruleVarOf? (s : Scene) (t : Ty) (e : Effect) : Option Value :=
  if s.varTy = some t then some e.ruleVar else none

end Effect

/-- A semantic action. -/
abbrev Action := Scene → Effect → Effect

/-- A hook for a failure. -/
abbrev FailureHook := Failure → Action

/-- The key that annotations are bound under. -/
def Key.annotations : Key := "Annotations"

/-- Record where the match was, and tag the name it made with the number of the record. -/
def Action.annotate : Action := fun s e =>
  match s.annotating, e.attr with
  | true, .ident i =>
    let (annotations, number) := e.annotations.annotate s.span
    { e with attr := .ident { i with tag := some number }, annotations }
  | _, _ => e

/-- Render a report of the failure. -/
def FailureHook.report : FailureHook := fun f s e =>
  if s.annotating then { e with annotations := e.annotations.reportFailure s.source f } else e

/-- The action that does nothing. -/
def Action.none : Action := fun _ e => e

/-- The hook that does nothing. -/
def FailureHook.none : FailureHook := fun _ => Action.none

end Peg
