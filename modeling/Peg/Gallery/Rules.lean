/-
  Peg.Gallery.Rules

  Sample rules and their bodies. A rule without a body here is defined by the
  grammar that uses it, or not at all.
-/
import Peg.Gallery.Basic
import Peg.Parse.State

namespace Peg.Gallery

open Peg.Notation

/-! ## Rules -/

def abChainRule : Rule := { name := "ab-chain", ty := .unused }

def digitsRule : Rule := { name := "digits", ty := .text }

def pairRule : Rule := { name := "pair", ty := .tuple [u32, u32] }

def silentRule : Rule := { name := "silent", ty := .text }

def loudRule : Rule := { name := "loud", ty := .text }

def asLoudRule : Rule := { name := "as-loud", ty := .text }

def sumRule : Rule := { name := "sum", ty := i32 }

def wrongValRule : Rule := { name := "wrong-val", ty := i32 }

def nestedRule : Rule := { name := "nested", ty := u32 }

def nameRule : Rule := { name := "name", ty := .text }

def keyValueRule : Rule := { name := "key-value", ty := .tuple [.text, i64] }

def itemRule : Rule := { name := "item", ty := .vec u32 }

def jsonIntRule : Rule := { name := "json-int", ty := token }

def jsonStrRule : Rule := { name := "json-str", ty := token }

def jsonTokRule : Rule := { name := "json-tok", ty := token }

def personRule : Rule := { name := "person", ty := employee }

def csvRule : Rule := { name := "csv", ty := .vec (.vec i32) }

def optRule : Rule := { name := "opt", ty := .option i32 }

def sExprRule : Rule := { name := "s-expr", ty := u32 }

def barRule : Rule := { name := "\"bar\"", ty := .unused }

def even2Rule : Rule := { name := "even-2", ty := u32 }

def errOuterRule : Rule := { name := "err-outer", ty := .unused }

/-- Writes the failures inside it down. -/
def errInnerRule : Rule :=
  { name := "err-inner", ty := .unused
    onError := fun f s e => e.note s!"inner {f.message} {s.span.render}" }

/-- Rejects odd numbers. -/
def evenRule : Rule :=
  { name := "even number", ty := u32
    onSuccess := some fun _ e =>
      match e.attr with
      | .int n => if n % 2 = 0 then e else e.fail
      | _ => e }

/-- Writes the report of a failure inside it down. -/
def documentRule : Rule :=
  { name := "document", ty := .unused
    onError := fun f s e => e.note ((Report.ofText s.source).renderFailure f) }

def seenRule : Rule := { name := "seen", ty := .unused }

/-! ## Actions of the bodies -/

/-- Put `f` of the attribute into the rule variable, if that has type `t`. -/
def fillVar (t : Ty) (f : Value → Value) : Action := fun s e =>
  match e.ruleVarOf? s t with
  | some _ => { e with ruleVar := f e.attr }
  | none => e

/-- The sum of integers, in 32 bits. -/
def sum32 : Value → Value
  | .seq vs => .int (vs.foldl
      (fun acc v =>
        match v with
        | .int n => Int.bmod (acc + n) 0x100000000
        | _ => acc)
      0)
  | _ => .int 0

/-- One more than the integer, if there is one. -/
def oneMore : Value → Value
  | .some (.int n) => .int (n + 1)
  | _ => .int 1

/-- One more than the greatest of the integers. -/
def oneAboveAll : Value → Value
  | .seq vs => .int (vs.foldl
      (fun acc v =>
        match v with
        | .int n => max acc n
        | _ => acc)
      0 + 1)
  | _ => .int 1

/-- Write down which types the rule variable has, and double the integer. -/
def noteTypes : Action := fun s e =>
  let long := (e.ruleVarOf? s i64).isSome
  let short := (e.ruleVarOf? s i32).isSome
  double32 s (e.note s!"i64={long} i32={short}")

/-! ## Bodies -/

/-- A number of pairs of brackets inside each other, counted. -/
def nested : Grammar :=
  defining nestedRule
    (discard (act (fillVar u32 oneMore) (lit '(' >>> opt (call nestedRule) >>> ')')))

/-- The rules with bodies of their own. -/
def definitions : List (String × Definition) :=
  [(abChainRule, orElse (lit 'a') 'b' >>> orElse (call abChainRule) 'b'),
    (digitsRule, plus digit),
    (pairRule, uint >>> ',' >>> uint),
    (silentRule, act Action.none (plus digit)),
    (asLoudRule, into .text (act Action.none (plus digit))),
    (sumRule, discard (act (fillVar i32 sum32) (sepBy int '+'))),
    (nameRule, identifier),
    (keyValueRule, call nameRule >>> expect '=' >>> expect long),
    (itemRule, sepBy uint ',' >>> ';'),
    (jsonIntRule, long),
    (jsonStrRule, lexeme (lit '"' >>> kleene (butNot anyChar '"') >>> expect '"')),
    (jsonTokRule, orElse (call jsonIntRule) (call jsonStrRule)),
    (personRule, lexeme (plus alpha) >>> ':' >>> uint),
    (csvRule, sepBy (sepBy int ',') eol),
    (optRule, lit '<' >>> opt int >>> '>'),
    (sExprRule,
      discard
        (orElse
          (act (fillVar u32 oneAboveAll)
            (lit '(' >>> kleene (call sExprRule) >>> expect (lit ')')))
          (plus alpha))),
    (barRule, word "bar"),
    (even2Rule, call evenRule >>> opt (lit '!')),
    (errOuterRule, lit '<' >>> expect (call errInnerRule) >>> expect '>'),
    (errInnerRule, lit '[' >>> expect (discard digit) >>> expect ']'),
    (evenRule, uint)].map fun (r, body) => (r.name, ⟨body, false⟩)

/-- The rules whose bodies fill the attribute in spite of actions. -/
def forcedDefinitions : List (String × Definition) :=
  [(loudRule, act Action.none (plus digit)), (wrongValRule, act noteTypes int)].map
    fun (r, body) => (r.name, ⟨body, true⟩)

end Peg.Gallery
