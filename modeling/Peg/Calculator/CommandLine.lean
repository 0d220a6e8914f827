/-
  Peg.Calculator.CommandLine

  The command line of the calculator: reading its arguments, and answering the
  expressions among them or else the lines of the input. Answers go to the
  output and error reports to the error output; the status tells whether there
  were any.
-/
import Peg.Calculator.Basic
import Peg.Decimal.Shortest
import Peg.Diagnostic.Terminal
import Peg.Text.Blank

namespace Peg.CommandLine

/-! ## Arguments -/

structure Options where
  color : ColorMode := .auto
  /-- errors are reported with a caret only -/
  report : Bool := false
  defines : List (String × Float) := []
  expressions : List String := []

/-- Why arguments are refused. -/
inductive Refusal where
  | unknownColor (mode : String)
  | noValue (define : String)
  | badValue (name : String) (error : Calculator.Error)

def Refusal.message : Refusal → String
  | unknownColor mode => s!"unknown color mode `{mode}`"
  | noValue define => s!"expected NAME=VALUE, found `{define}`"
  | badValue name error => s!"bad value for `{name}`: {error.message}"

/-- What the arguments ask for. -/
inductive Request where
  | help
  | refuse (why : Refusal)
  | run (options : Options)

/-- A color mode by its name. -/
def colorMode? : String → Option ColorMode
  | "auto" => some .auto
  | "always" => some .always
  | "never" => some .never
  | _ => none

/-- The constant of a definition: a name, the first equals sign, and an expression over the
    standard constants. Blanks around the name do not count. -/
def readDefine (define : String) : Except Refusal (String × Float) :=
  let text := define.toList
  match text.dropWhile (· != '=') with
  | [] => .error (.noValue define)
  | _ :: value =>
    let name := text.takeWhile (· != '=')
    match Calculator.standard.evaluate (String.ofList value) with
    | .ok v => .ok (String.ofList (Text.trim name), v)
    | .error e => .error (.badValue (String.ofList name) e)

/-- What follows `option` in an argument that starts with it. -/
def valueOf? (option arg : String) : Option String :=
  (Text.dropWord? option.toList arg.toList).map String.ofList

def Options.addDefine (o : Options) (define : String) : Except Refusal Options :=
  (readDefine define).map fun d => { o with defines := o.defines ++ [d] }

def Options.addExpression (o : Options) (expression : String) : Options :=
  { o with expressions := o.expressions ++ [expression] }

/-- One argument that stands alone. Whatever is no option is an expression. -/
def Options.addArgument (o : Options) (arg : String) : Except Refusal Options :=
  match valueOf? "--color=" arg, valueOf? "--define=" arg with
  | some mode, _ =>
    match colorMode? mode with
    | some color => .ok { o with color }
    | none => .error (.unknownColor mode)
  | none, some define => o.addDefine define
  | none, none => .ok (if arg = "--report" then { o with report := true } else o.addExpression arg)

/-- The arguments one after the other; the first that is refused, or that asks for help, decides. -/
def Request.ofArguments : List String → Options → Request
  | [], o => .run o
  -- without a value after it, the short option is an argument like any other
  | "-D" :: define :: rest, o =>
    match o.addDefine define with
    | .ok o => ofArguments rest o
    | .error why => .refuse why
  | arg :: rest, o =>
    if arg = "--help" ∨ arg = "-h" then .help
    else
      match o.addArgument arg with
      | .ok o => ofArguments rest o
      | .error why => .refuse why

def usage : String :=
  "Usage: weft-calc [options] [expression...]\n\n" ++
  "Reads one expression per line from stdin when none are given.\n\n" ++
  "Options:\n" ++
  "  --color=<mode>        Diagnostics color: auto, always, never\n" ++
  "  --report              Plain caret reports instead of diagnostics\n" ++
  "  -D, --define=NAME=V   Define a constant\n\n" ++
  "Set WEFT_LOG (e.g. WEFT_LOG=weft_parse=trace) to trace the parse.\n"

/-! ## Answers -/

/-- What an expression gets: text for both outputs, and whether it failed. -/
structure Reply where
  output : String := ""
  errors : String := ""
  failed : Bool := false
  deriving Repr

/-- One reply after the other. -/
def Reply.append (r s : Reply) : Reply :=
  ⟨r.output ++ s.output, r.errors ++ s.errors, r.failed || s.failed⟩

/-- A calculator with the constants that the options define. -/
def Options.calculator (o : Options) : Calculator :=
  o.defines.foldl (fun c (name, v) => c.define name v) .standard

/-- The report of an error in an expression. -/
def Options.errorText (o : Options) (isTerminal : Bool) (source : String)
    (e : Calculator.Error) : String :=
  if o.report then (Report.ofText source.toList).render e.position e.reportMessage
  else
    Diagnostic.transcript (o.color.usesColors isTerminal) (some ⟨"<input>", source.toList⟩)
      [.emit e.toDiagnostic]

/-- Evaluate an expression. -/
def Options.answer (o : Options) (isTerminal : Bool) (source : String) : Reply :=
  match o.calculator.evaluate source with
  | .ok v => { output := Decimal.render v ++ "\n" }
  | .error e => { errors := o.errorText isTerminal source e, failed := true }

/-! ## Lines of input -/

/-- A line without its terminator, which is a line feed or a carriage return before one; nothing
    for bytes that are no text. -/
def lineText? (bytes : List UInt8) : Option String :=
  let body :=
    match bytes.reverse with
    | 10 :: 13 :: r => r.reverse
    | 10 :: r => r.reverse
    | _ => bytes
  String.fromUTF8? ⟨body.toArray⟩

/-- Evaluate a line; a blank one has no answer, and one that is no text ends the session. -/
def Options.answerLine (o : Options) (isTerminal : Bool) (bytes : List UInt8) :
    Except Reply Reply :=
  match lineText? bytes with
  | none =>
    .error
      { errors := "error: reading stdin: stream did not contain valid UTF-8\n", failed := true }
  | some line =>
    .ok (if (Text.trim line.toList).isEmpty then {} else o.answer isTerminal line)

/-- The bytes up to the end of each line, the terminators included. -/
def splitLines : List UInt8 → List (List UInt8)
  | [] => []
  | b :: r =>
    if b = 10 then [b] :: splitLines r
    else
      match splitLines r with
      | [] => [[b]]
      | line :: rest => (b :: line) :: rest

/-- The replies to lines, up to the first that ends the session. -/
def Options.answerLines (o : Options) (isTerminal : Bool) : List (List UInt8) → Reply
  | [] => {}
  | line :: rest =>
    match o.answerLine isTerminal line with
    | .ok r => r.append (o.answerLines isTerminal rest)
    | .error r => r

/-! ## Sessions -/

/-- What a whole session writes, and its status. -/
structure Transcript where
  status : UInt8
  output : String := ""
  errors : String := ""

def Reply.transcript (r : Reply) : Transcript := ⟨if r.failed then 1 else 0, r.output, r.errors⟩

/-- Whether the session answers the lines of the input. -/
def Options.readsInput (o : Options) : Bool := o.expressions.isEmpty

/-- The session that needs no input, if it is one: help, a refusal, or expressions among the
    arguments. Otherwise the options for the lines to come. -/
def Request.settle (isTerminal : Bool) : Request → Except Options Transcript
  | .help => .ok { status := 0, errors := usage }
  | .refuse why => .ok { status := 2, errors := s!"error: {why.message}\n" ++ usage }
  | .run o =>
    if o.readsInput then .error o
    else .ok ((o.expressions.map (o.answer isTerminal)).foldl Reply.append {}).transcript

/-- The session over arguments and the bytes of the input. -/
def session (isTerminal : Bool) (args : List String) (input : List UInt8) : Transcript :=
  match (Request.ofArguments args {}).settle isTerminal with
  | .ok t => t
  | .error o => (o.answerLines isTerminal (splitLines input)).transcript

end Peg.CommandLine
