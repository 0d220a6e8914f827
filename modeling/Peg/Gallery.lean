/-
  Peg.Gallery

  The sample grammars by name, and the skippers they can be run with.
-/
import Peg.Entry
import Peg.Gallery.Operators
import Peg.Gallery.Directives
import Peg.Gallery.Slots

namespace Peg.Gallery

open Peg.Notation

/-- All samples. -/
def samples : List Sample :=
  sequences ++ choices ++ repetitions ++ lookaheads ++ commitPoints ++ actions ++ yielded ++
    skipping ++ bindings ++ terminals ++ declared ++ ruleUses

def sample? (name : String) : Option Sample := samples.find? (·.name == name)

/-- The skippers: white space, white space within a line, white space with comments to the end
    of the line, pairs of dots, and one that takes nothing. -/
def skippers : List (String × Grammar) :=
  [("space", space),
    ("blank", blank),
    ("comment", orElse space (lit '#' >>> kleene (butNot anyChar eol) >>> eol)),
    ("dots", word ".."),
    ("nothing", eps)]

/-- A sample with the rules it may refer to. -/
def Sample.program (s : Sample) (skipper : Option Grammar) : Program :=
  { grammar := s.grammar, skipper, rules := definitions ++ forcedDefinitions }

end Peg.Gallery
