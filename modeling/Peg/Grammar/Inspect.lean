/-
  Peg.Grammar.Inspect

  The written form of parsers themselves, for those that have one: numbers,
  tables of words, rules with or without their bodies, and actions around these.
-/
import Peg.Attribute.Declaration
import Peg.Grammar.Basic
import Peg.Text.Quoted

namespace Peg

namespace Grammar

/-- What a parser is, as opposed to what it matches. -/
def inspect? : Grammar → Option String
  | .terminal (.integer n) => some n.render
  | .terminal .double => some "RealParser<f64>"
  | .terminal .single => some "RealParser<f32>"
  | .terminal (.symbols _ s) => some s.render
  | .eps (.scripted _ _) => some "EpsWith"
  | .rule r => some s!"Rule({r.name})"
  | .define r force body =>
    (inspect? body).map fun rhs =>
      s!"RuleDefinition \x7b rule: {Text.quote r.name.toList}, force: {force}, rhs: {rhs} \x7d"
  | .action p _ => (inspect? p).map fun subject => s!"Action \x7b subject: {subject}, .. \x7d"
  | _ => none

end Grammar

/-- The name of a kind of type. -/
def Ty.Kind.label : Ty.Kind → String
  | .unused => "Unused"
  | .plain => "Plain"
  | .tuple => "TupleLike"
  | .option => "Optional"
  | .variant | .either => "Variant"
  | .container => "Container"

end Peg
