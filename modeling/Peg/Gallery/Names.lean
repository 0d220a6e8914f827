/-
  Peg.Gallery.Names

  Samples that keep the places of the names they read, and render reports of the
  failures inside them.
-/
import Peg.Gallery.Basic
import Peg.Entry

namespace Peg.Gallery

open Peg.Notation

abbrev ident : Ty := .user .ident

/-! ## Rules -/

def identRule : Rule := { name := "name", ty := ident, onSuccess := some Action.annotate }

def identsRule : Rule := { name := "names", ty := .vec ident, onError := FailureHook.report }

def bothRule : Rule :=
  { name := "both", ty := ident, onSuccess := some Action.annotate, onError := FailureHook.report }

def groupsRule : Rule := { name := "groups", ty := .vec ident, onError := FailureHook.report }

/-- Has no body of its own. -/
def wordRule : Rule := { name := "word", ty := ident, onSuccess := some Action.annotate }

def nameDefinitions : List (String × Definition) :=
  [(identRule.name, ⟨lexeme (raw (alpha >>> kleene alnum)), false⟩),
    (identsRule.name, ⟨lit '[' >>> sepBy (call identRule) ',' >>> expect (lit ']'), false⟩),
    (bothRule.name, ⟨lexeme (raw alpha) >>> expect ';', true⟩),
    (groupsRule.name, ⟨kleene (call identsRule), false⟩)]

/-! ## Samples -/

/-- Grammars that are parsed into a vector of names. -/
def nameSamples : List (String × Grammar) :=
  [("names", call identsRule),
    ("both", call bothRule),
    ("both_list", kleene (call bothRule)),
    ("groups", call groupsRule),
    ("word", defining wordRule (lexeme (raw (plus alpha)))),
    ("alternatives", orElse (call identRule >>> '!') (call identRule >>> '?'))]

/-- A sample over white space. Annotations are collected on demand. -/
def nameProgram (g : Grammar) (annotated : Bool) : Program :=
  { grammar := if annotated then .bind Key.annotations .annotations g else g
    skipper := some space
    rules := nameDefinitions }

end Peg.Gallery
