/-
  Peg.Entry

  Entry points: parse a text with a grammar and an optional skipper, merge the
  attribute into the caller's slot when it matched, and tell how far the parse
  came.
-/
import Peg.Parse.Run
import Peg.Text.Lines

namespace Peg

/-! ## Options and results -/

structure ParseOptions where
  /-- the skipper runs once more after a match -/
  postSkip : Bool := true
  /-- failures of commit points are recorded -/
  trackFailures : Bool := true
  deriving DecidableEq, Repr

/-- Where a parse ended. -/
structure ParseResult where
  matched : Bool
  position : Nat
  /-- the length of the text -/
  stop : Nat
  failure : Option Failure
  deriving DecidableEq, Repr

/-- Why a parse that had to take the whole text did not. -/
inductive ParseError where
  | noMatch
  | incomplete (position line column : Nat)
  | expectation (position line column : Nat) (which : String)
  deriving DecidableEq, Repr

namespace ParseError

def message : ParseError → String
  | noMatch => "input does not match"
  | incomplete _ line column => s!"unexpected input at line {line}, column {column}"
  | expectation _ line column which => s!"expecting {which} at line {line}, column {column}"

def position? : ParseError → Option Nat
  | noMatch => none
  | incomplete position _ _ => some position
  | expectation position _ _ _ => some position

end ParseError

namespace ParseResult

def isFull (r : ParseResult) : Bool := r.matched && r.position == r.stop

def isPartial (r : ParseResult) : Bool := r.matched && r.position < r.stop

/-- What the parse left. -/
def remainder (r : ParseResult) (source : Text) : Text :=
  (Text.dropBytes? source r.position).getD []

/-- The reason a result is not a match of the whole text. A recorded failure comes first. -/
def error? (r : ParseResult) (source : Text) : Option ParseError :=
  if r.isFull then none
  else
    -- a failure on record says more than how far the parse came
    match r.failure with
    | some f =>
      let (line, column) := lineColumn source f.position
      some (.expectation f.position line column f.which)
    | none =>
      if r.matched then
        let (line, column) := lineColumn source r.position
        some (.incomplete r.position line column)
      else some .noMatch

end ParseResult

/-! ## Running -/

/-- A grammar with the rules it refers to, and the skipper between its terminals. -/
structure Program where
  grammar : Grammar
  skipper : Option Grammar := none
  rules : List (String × Definition) := []

namespace Program

def env (p : Program) (source : Text) : Env := .of source (p.rules.lookup ·)

/-- The number of nodes of everything that can run. -/
def size (p : Program) : Nat :=
  p.grammar.size + (p.skipper.map (·.size)).getD 0 + Grammar.sizes (p.rules.map (·.2.body))

/-- Enough fuel for every parse whose rules take something before they call themselves: between
    two calls the recursion descends through the nodes of a parser and of a skipper, and the
    number of nested calls is bounded by the text and the scripts. Rounded up so that the first
    levels share one stack. -/
def fuel (p : Program) (source : Text) : Nat :=
  let needed := (Text.byteLength source + p.size + 8) * (p.size + 8) * (2 * p.size + 8)
  (needed / stackSegment + 1) * stackSegment

/-- The context that the grammar is parsed in. -/
def context (p : Program) (options : ParseOptions) : Ctx :=
  { skipper := p.skipper, tracking := options.trackFailures }

/-- What a run leaves behind. -/
structure Run where
  result : ParseResult
  /-- the caller's slot -/
  slot : Value
  /-- in the order in which they happened -/
  events : List Event
  /-- in the order in which they happened -/
  journal : List Incident
  annotations : Annotations

/-- The skipper once more, if the options ask for it. -/
def afterMatch (p : Program) (fuel : Nat) (options : ParseOptions) (source : Text) (st : State) :
    Except Halt State :=
  if options.postSkip then
    Node.skipOver (p.env source) (parse (p.env source) fuel) (p.context options) st
  else .ok st

/-- What a run leaves behind that ends in a state. -/
def report (source : Text) (matched : Bool) (slot : Value) (st : State) : Run :=
  { result :=
      { matched, position := st.offset, stop := Text.byteLength source, failure := st.failure }
    slot
    events := st.events.reverse
    journal := st.journal.reverse
    annotations := st.annotations }

/-- Parse a text from its start, with parsers that call each other at most `fuel` deep. The slot,
    of type `target`, takes the attribute of a match and stays as it is otherwise. -/
def runWithin (p : Program) (fuel : Nat) (options : ParseOptions) (target : Ty) (slot : Value)
    (source : Text) : Except Halt Run :=
  match parse (p.env source) fuel p.grammar (p.context options) { cursor := .start source } with
  | .stopped h => .error h
  | .failed st => .ok (report source false slot st)
  | .matched v st => do
    let st ← p.afterMatch fuel options source st
    return report source true (Value.merge target p.grammar.ty slot v) st

/-- Parse a text from its start. -/
def run (p : Program) (options : ParseOptions) (target : Ty) (slot : Value) (source : Text) :
    Except Halt Run :=
  p.runWithin (p.fuel source) options target slot source

/-- Parse the whole text into a fresh slot. -/
def runAll (p : Program) (target : Ty) (source : Text) :
    Except Halt (Except ParseError Value × Run) := do
  let r ← p.run {} target (Value.default target) source
  match r.result.error? source with
  | some e => return (.error e, r)
  | none => return (.ok r.slot, r)

end Program

end Peg
