/-
  Peg.Terminal.CharTest

  Tests on single characters: one character, any, a range, a set written like
  the body of a bracket expression, a named class, and the negation of a test.
  The named classes know ASCII only.
-/
import Peg.Text.Case
import Peg.Text.Quoted

namespace Peg

/-! ## Named classes -/

inductive CharClass where
  | alpha | alnum | digit | xdigit | upper | lower
  | space | blank | punct | graph | print | cntrl
  deriving DecidableEq, Repr

namespace CharClass

def name : CharClass → String
  | alpha => "alpha"
  | alnum => "alnum"
  | digit => "digit"
  | xdigit => "xdigit"
  | upper => "upper"
  | lower => "lower"
  | space => "space"
  | blank => "blank"
  | punct => "punct"
  | graph => "graph"
  | print => "print"
  | cntrl => "cntrl"

/-- The class of this name. -/
def ofName? (s : String) : Option CharClass :=
  [alpha, alnum, digit, xdigit, upper, lower, space, blank, punct, graph, print, cntrl].find?
    (·.name == s)

/-- The visible ASCII characters. -/
def isGraphic (c : Char) : Bool := '!' ≤ c && c ≤ '~'

/-- Membership. The class of white space has the vertical tab, that of blanks only the blank and
    the tab. -/
def holds (k : CharClass) (c : Char) : Bool :=
  match k with
  | alpha => c.isAlpha
  | alnum => c.isAlphanum
  | digit => c.isDigit
  | xdigit => c.isDigit || ('a' ≤ c && c ≤ 'f') || ('A' ≤ c && c ≤ 'F')
  | upper => c.isUpper
  | lower => c.isLower
  | space => c == ' ' || ('\t' ≤ c && c ≤ '\r')
  | blank => c == ' ' || c == '\t'
  | punct => isGraphic c && !c.isAlphanum
  | graph => isGraphic c
  | print => isGraphic c || c == ' '
  | cntrl => c < ' ' || c == '\x7f'

/-- Membership, where the two letter cases are one class when case is ignored. -/
def test (k : CharClass) (noCase : Bool) (c : Char) : Bool :=
  match k, noCase with
  | upper, true => c.isAlpha
  | lower, true => c.isAlpha
  | k, _ => k.holds c

end CharClass

/-! ## Tests -/

inductive CharTest where
  | single (c : Char)
  | any
  | range (lo hi : Char)
  | set (definition : Text)
  | named (k : CharClass)
  | negated (t : CharTest)
  deriving DecidableEq, Repr

namespace CharTest

/-- The character lies in the range, ends included. -/
def within (lo hi c : Char) : Bool := lo ≤ c && c ≤ hi

/-- The character, or one of its other cases when case is ignored, lies in the range. -/
def testRange (lo hi : Char) (noCase : Bool) (c : Char) : Bool :=
  within lo hi c ||
    (noCase && ((Text.lowerCase c).any (within lo hi) || (Text.upperCase c).any (within lo hi)))

/-- The ranges of a set: a dash between two characters makes a range of them, any other
    character stands for itself. -/
def ranges : Text → List (Char × Char)
  | lo :: '-' :: hi :: r => (lo, hi) :: ranges r
  | c :: r => (c, c) :: ranges r
  | [] => []

/-- The test accepts the character. -/
def test : CharTest → Bool → Char → Bool
  | .single a, noCase, c => Text.agree noCase c a
  | .any, _, _ => true
  | .range lo hi, noCase, c => testRange lo hi noCase c
  | .set definition, noCase, c => (ranges definition).any fun (lo, hi) => testRange lo hi noCase c
  | .named k, noCase, c => k.test noCase c
  | .negated t, noCase, c => !t.test noCase c

/-- The description of a test. -/
def what : CharTest → String
  | .single c => Text.quoteChar c
  | .any => "any char"
  | .range lo hi => Text.quoteChar lo ++ "-" ++ Text.quoteChar hi
  | .set definition => "[" ++ String.ofList definition ++ "]"
  | .named k => k.name
  | .negated t => "~" ++ t.what

end CharTest

end Peg
