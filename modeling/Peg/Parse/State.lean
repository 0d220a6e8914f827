/-
  Peg.Parse.State

  What a parse carries along. The environment never changes; the context is
  handed down and tells what is in force at a node; the state goes through every
  node, is kept when a node fails, and holds the cursor, the recorded failure,
  the log, a journal of what happened, and the contents of everything mutable.
-/
import Peg.Grammar.Describe

namespace Peg

/-! ## Environment and context -/

/-- The body of a rule, and whether it fills the attribute even when it has actions. -/
structure Definition where
  body : Grammar
  force : Bool

/-- The text, its length in bytes, and the rules defined out of line. -/
structure Env where
  source : Text
  length : Nat
  rules : String → Option Definition
  length_eq : length = Text.byteLength source

/-- The environment of a text. -/
def Env.of (source : Text) (rules : String → Option Definition) : Env :=
  ⟨source, Text.byteLength source, rules, rfl⟩

/-- A place for a mutable value: a cell kept for the whole parse, or the cell at a level of the
    stack of those that live while their directive is parsed. -/
inductive CellRef where
  | shared (id : Nat)
  | fresh (level : Nat)
  deriving DecidableEq, Repr

/-- What a key is bound to. -/
inductive Bound where
  | value (v : Value)
  | cell (r : CellRef)
  | annotations

/-- What is in force at a node. -/
structure Ctx where
  skipper : Option Grammar := none
  skipping : Bool := true
  noCase : Bool := false
  /-- failures are recorded -/
  tracking : Bool := false
  chain : Chain Bound Definition := []
  /-- the type of the rule variable in sight -/
  varTy : Option Ty := none

namespace Ctx

/-- The context a skipper runs in: nothing is inherited. -/
def root : Ctx := {}

/-- Inside a rule call, before its own variable exists. -/
def outsideRules (c : Ctx) : Ctx := { c with varTy := none }

def bind (c : Ctx) (key : Key) (b : Bound) : Ctx := { c with chain := .bind key b :: c.chain }

def inject (c : Ctx) (rule : String) (d : Definition) : Ctx :=
  { c with chain := .inject rule d :: c.chain }

/-- Annotations are collected under one of the keys in sight. -/
def annotating (c : Ctx) : Bool :=
  c.chain.inSight.any fun
    | (_, .annotations) => true
    | _ => false

end Ctx

/-! ## State -/

/-- What happens on the way that hooks and failures depend on: calls of rules begin and end, commit
    points miss, and hooks run on a span. -/
inductive Incident where
  /-- a rule is called -/
  | entered (rule : String)
  /-- a call of a rule is over -/
  | left (rule : String)
  /-- a commit point misses -/
  | missed (f : Failure)
  /-- an action runs -/
  | acted (span : Span)
  /-- a rule's hook for matches runs -/
  | succeeded (rule : String) (span : Span)
  /-- a rule's hook for failures runs -/
  | reported (rule : String) (span : Span)
  deriving DecidableEq, Repr

structure State where
  cursor : Cursor
  failure : Option Failure := none
  /-- newest first -/
  events : List Event := []
  /-- newest first -/
  journal : List Incident := []
  /-- the shared cells used so far -/
  shared : List (Nat × Value) := []
  /-- the fresh cells of the directives being parsed, innermost first -/
  locals : List Value := []
  /-- how often each script was asked -/
  calls : List (Nat × Nat) := []
  /-- the variable of the innermost rule being parsed -/
  ruleVar : Value := .unused
  annotations : Annotations := {}

/-- Set the entry for a number. -/
def assign {α : Type} (id : Nat) (v : α) : List (Nat × α) → List (Nat × α)
  | [] => [(id, v)]
  | (k, w) :: r => if k = id then (k, v) :: r else (k, w) :: assign id v r

namespace State

def offset (st : State) : Nat := st.cursor.offset

def moveTo (st : State) (c : Cursor) : State := { st with cursor := c }

def readCell (st : State) : CellRef → Value
  | .shared id => (st.shared.lookup id).getD .unused
  -- levels count from the outermost cell, and the list begins with the innermost one
  | .fresh level => (st.locals[st.locals.length - 1 - level]?).getD .unused

def writeCell (st : State) (v : Value) : CellRef → State
  | .shared id => { st with shared := assign id v st.shared }
  | .fresh level => { st with locals := st.locals.set (st.locals.length - 1 - level) v }

/-- A shared cell has its initial value until it is used. -/
def openCell (st : State) (id : Nat) (initial : Value) : State :=
  if (st.shared.lookup id).isSome then st else { st with shared := assign id initial st.shared }

/-- The value behind a binding. -/
def valueOf? (st : State) : Bound → Option Value
  | .value v => some v
  | .cell r => some (st.readCell r)
  | .annotations => none

/-- The values in sight by key. -/
def values (st : State) (ctx : Ctx) : List (Key × Value) :=
  ctx.chain.inSight.filterMap fun (k, b) => (st.valueOf? b).map fun v => (k, v)

/-- Store what an action left under one key. -/
def storeOne (bound : List (Key × Value)) (st : State) (entry : Key × Bound) : State :=
  match entry.2, bound.lookup entry.1 with
  | .cell r, some v => st.writeCell v r
  | _, _ => st

/-- Store what an action left in the cells in sight. -/
def store (st : State) (ctx : Ctx) (bound : List (Key × Value)) : State :=
  ctx.chain.inSight.foldl (storeOne bound) st

/-- A failure is recorded and has not been dealt with. -/
def pending (st : State) (ctx : Ctx) : Bool := ctx.tracking && st.failure.isSome

/-- Put an incident into the journal. -/
def mark (st : State) (i : Incident) : State := { st with journal := i :: st.journal }

/-- Offer a failure for the record. -/
def record (st : State) (f : Failure) : State :=
  { st.mark (.missed f) with failure := Failure.record st.failure f }

/-- Ask a script for its next answer. -/
def ask (st : State) (id : Nat) (answers : List Bool) : Bool × State :=
  let k := (st.calls.lookup id).getD 0
  ((answers[k]?).getD false, { st with calls := assign id (k + 1) st.calls })

/-! ## What the changes of a state leave alone -/

section Frame

variable (st : State)

@[simp] theorem offset_def : st.cursor.offset = st.offset := rfl

@[simp] theorem moveTo_cursor (c : Cursor) : (st.moveTo c).cursor = c := rfl
@[simp] theorem moveTo_offset (c : Cursor) : (st.moveTo c).offset = c.offset := rfl
@[simp] theorem moveTo_failure (c : Cursor) : (st.moveTo c).failure = st.failure := rfl
@[simp] theorem moveTo_journal (c : Cursor) : (st.moveTo c).journal = st.journal := rfl

@[simp] theorem mark_cursor (i : Incident) : (st.mark i).cursor = st.cursor := rfl
@[simp] theorem mark_offset (i : Incident) : (st.mark i).offset = st.offset := rfl
@[simp] theorem mark_failure (i : Incident) : (st.mark i).failure = st.failure := rfl
@[simp] theorem mark_journal (i : Incident) : (st.mark i).journal = i :: st.journal := rfl

@[simp] theorem record_cursor (f : Failure) : (st.record f).cursor = st.cursor := rfl
@[simp] theorem record_offset (f : Failure) : (st.record f).offset = st.offset := rfl
@[simp] theorem record_failure (f : Failure) :
    (st.record f).failure = Failure.record st.failure f := rfl
@[simp] theorem record_journal (f : Failure) :
    (st.record f).journal = .missed f :: st.journal := rfl

@[simp] theorem ask_cursor (id : Nat) (answers : List Bool) :
    (st.ask id answers).2.cursor = st.cursor := rfl
@[simp] theorem ask_offset (id : Nat) (answers : List Bool) :
    (st.ask id answers).2.offset = st.offset := rfl
@[simp] theorem ask_failure (id : Nat) (answers : List Bool) :
    (st.ask id answers).2.failure = st.failure := rfl
@[simp] theorem ask_journal (id : Nat) (answers : List Bool) :
    (st.ask id answers).2.journal = st.journal := rfl

/-- Opening a cell touches the shared cells only. -/
theorem openCell_eq (id : Nat) (v : Value) :
    st.openCell id v = { st with shared := (st.openCell id v).shared } := by
  unfold openCell
  split <;> rfl

/-- Storing what an action left touches cells only. -/
theorem store_eq (ctx : Ctx) (bound : List (Key × Value)) :
    st.store ctx bound =
      { st with shared := (st.store ctx bound).shared, locals := (st.store ctx bound).locals } := by
  unfold store
  induction ctx.chain.inSight generalizing st with
  | nil => rfl
  | cons entry r ih =>
    have one : storeOne bound st entry =
        { st with shared := (storeOne bound st entry).shared
                  locals := (storeOne bound st entry).locals } := by
      unfold storeOne
      split
      · rename_i ref _ _ _
        cases ref <;> rfl
      · rfl
    rw [List.foldl_cons, ih, one]

end Frame

end State

/-! ## Outcomes -/

/-- Why a parse ends without an answer. -/
inductive Stop where
  /-- a rule has no definition -/
  | undefinedRule (name : String)
  /-- a move would leave the character boundaries of the text -/
  | offBoundary (position : Nat)
  /-- the recursion went deeper than the fuel allows -/
  | exhausted
  deriving DecidableEq, Repr

namespace Stop

def message : Stop → String
  | .undefinedRule name => s!"rule `{name}` used without a definition"
  | .offBoundary position => s!"cursor position {position} is not a char boundary"
  | .exhausted => "recursion too deep"

end Stop

/-- A parse that ended without an answer, and the state that it had come to. -/
structure Halt where
  why : Stop
  state : State

inductive Outcome where
  | matched (v : Value) (st : State)
  | failed (st : State)
  | stopped (h : Halt)

/-- Go on with the value and the state after a match, or with the state after a failure. -/
def Outcome.cases (o : Outcome) (hit : Value → State → Outcome) (miss : State → Outcome) :
    Outcome :=
  match o with
  | .matched v st => hit v st
  | .failed st => miss st
  | .stopped h => .stopped h

namespace Outcome

@[simp] theorem cases_matched (v : Value) (st : State) (hit : Value → State → Outcome)
    (miss : State → Outcome) : (matched v st).cases hit miss = hit v st := rfl

@[simp] theorem cases_failed (st : State) (hit : Value → State → Outcome)
    (miss : State → Outcome) : (failed st).cases hit miss = miss st := rfl

@[simp] theorem cases_stopped (h : Halt) (hit : Value → State → Outcome)
    (miss : State → Outcome) : (stopped h).cases hit miss = stopped h := rfl

end Outcome

end Peg
