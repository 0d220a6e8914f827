/-
  Peg.Grammar.Describe

  The description of a grammar, as failures quote it: operators in their infix
  form, directives by name around their subject, rules by name alone.
-/
import Peg.Grammar.Basic

namespace Peg

def Condition.what : Condition → String
  | .always => "eps"
  | .fixed holds => s!"eps({holds})"
  | .scripted _ _ => "eps(f)"

namespace Grammar

/-- The bounds of a repetition: one number when they are equal. -/
def boundsText (min : Nat) : Option Nat → String
  | some max => if max = min then s!"repeat({max})" else s!"repeat({min}, {max})"
  | none => s!"repeat({min}, inf)"

mutual

def what : Grammar → String
  | .terminal t => t.what
  | .eps c => c.what
  | .attr _ _ => "attr"
  | .seq ps => "(" ++ " >> ".intercalate (whats ps) ++ ")"
  | .alt p q => s!"({what p} | {what q})"
  | .diff p q => s!"({what p} - {what q})"
  | .list p d => s!"({what p} % {what d})"
  | .opt p => "-" ++ what p
  | .ahead p => "&" ++ what p
  | .notAhead p => "!" ++ what p
  | .kleene p => "*" ++ what p
  | .plus p => "+" ++ what p
  | .times min max p => boundsText min max ++ "[" ++ what p ++ "]"
  | .seek p => s!"seek[{what p}]"
  | .expect p => what p
  | .action p _ => what p
  | .raw p => s!"raw[{what p}]"
  | .discard p => s!"omit[{what p}]"
  | .flag p => s!"matches[{what p}]"
  | .into _ p => what p
  | .narrow _ _ p => what p
  | .lexeme p => s!"lexeme[{what p}]"
  | .noSkip p => s!"no_skip[{what p}]"
  | .skip p => s!"skip[{what p}]"
  | .skipWith s p => s!"skip({what s})[{what p}]"
  | .noCase p => s!"no_case[{what p}]"
  | .bind _ _ p => what p
  | .hide _ p => s!"without[{what p}]"
  | .rule r => r.name
  | .define r _ _ => r.name
  | .group p => what p
  | .sealed _ p => what p

def whats : List Grammar → List String
  | [] => []
  | p :: ps => what p :: whats ps

end

end Grammar

end Peg
