/-
  Peg.Gallery.Directives

  Samples of parsers that look ahead, of commit points, of actions, and of the
  directives that change what a parser yields, skips or sees.
-/
import Peg.Gallery.Rules

namespace Peg.Gallery

open Peg.Notation

/-! ## Looking ahead -/

def lookaheads : List Sample :=
  [⟨"diff_quote", .text, kleene (butNot anyChar '"')⟩,
    ⟨"diff_kw", .text, butNot (lexeme (raw (plus alpha))) (orElse (word "if") "else")⟩,
    ⟨"diff_action", i32, butNot (act say int) (act say int >>> '!')⟩,
    ⟨"and_int", i32, ahead digit >>> int⟩,
    ⟨"not_lit", .char, notAhead (lit 'a') >>> anyChar⟩,
    ⟨"not_fn", .text, kleene (notAhead "--" >>> anyChar)⟩,
    ⟨"not_not", .char, notAhead (notAhead (lit 'a')) >>> anyChar⟩]

/-! ## Commit points -/

def commitPoints : List Sample :=
  [⟨"expect_chain", .unused, orElse (lit 'a' >>> expect 'b' >>> expect 'c') (lit 'a' >>> 'x')⟩,
    ⟨"expect_stops_alt", .unused, orElse (lit 'a' >>> expect 'b') (word "ac")⟩,
    ⟨"expect_kleene", .vec i32, kleene (lit '#' >>> expect int)⟩,
    ⟨"expect_plus", .vec i32, plus (lit '#' >>> expect int)⟩,
    ⟨"expect_list", .vec i32, sepBy int (lit ',' >>> expect (notAhead (lit ',')))⟩,
    ⟨"expect_list_elem", .vec i32, sepBy (lit '#' >>> expect int) ','⟩,
    ⟨"expect_opt", .option i32, opt (lit '#' >>> expect int)⟩,
    ⟨"expect_repeat", .vec i32, between 1 3 (lit '#' >>> expect int)⟩,
    ⟨"expect_seek", i32, seek (lit '#' >>> expect int)⟩,
    ⟨"expect_matches", .bool, flag (lit '#' >>> expect int)⟩,
    ⟨"expect_matches_then", .tuple [.bool, .option i32],
      flag (lit '#' >>> expect alpha) >>> opt int⟩,
    ⟨"expect_not", .char, notAhead (lit '#' >>> expect int) >>> anyChar⟩,
    ⟨"expect_and", .char, ahead (lit '#' >>> expect int) >>> anyChar⟩,
    ⟨"expect_diff", .char, butNot anyChar (lit '#' >>> expect int)⟩,
    ⟨"then_expect", .tuple [.char, i32], .thenExpect alpha int⟩,
    ⟨"let_stmt", .tuple [.text, i32],
      word "let" >>> expect (plus alpha) >>> expect (lit '=') >>> expect int⟩]

/-! ## Actions -/

def actions : List Sample :=
  [⟨"action_double", i32, act double32 int⟩,
    ⟨"action_veto_alt", u32, orElse (act failZero uint) (yields u32 (.int 1))⟩,
    ⟨"action_say", .vec i32, sepBy (act say int) ','⟩,
    ⟨"action_lost", .either i32 i32, orElse (act say int >>> '!') (act say int)⟩,
    ⟨"action_veto_kleene", .vec i32, kleene (act sayUpToNine int)⟩,
    ⟨"action_val_outside", .char, act noteVar digit⟩,
    ⟨"action_debug", i32, act noteSelf int⟩]

/-! ## What is yielded -/

def yielded : List Sample :=
  [⟨"raw_num", .text, raw double⟩,
    ⟨"raw_pair", .tuple [.text, .char], raw (int >>> ',' >>> int) >>> alpha⟩,
    ⟨"raw_ext", .text, raw (digit >>> digit)⟩,
    ⟨"omit_ext", .char, discard digit >>> char 'x'⟩,
    ⟨"omit_list", i32, discard (sepBy int ',') >>> ':' >>> int⟩,
    ⟨"matches_digit", .bool, flag digit⟩,
    ⟨"matches_flags", .tuple [.bool, .bool, .bool], flag (lit 'r') >>> flag 'w' >>> flag "x"⟩,
    ⟨"as_i64", i64, into i64 int⟩,
    ⟨"as_string", .text, into .text (alpha >>> digit)⟩,
    ⟨"as_nested", .tuple [.text, .vec i64],
      into .text (alpha >>> alpha) >>> into (.vec i64) (int >>> ',' >>> int)⟩,
    ⟨"narrow_u8", u8, narrowTo .u8 uint⟩,
    ⟨"narrow_alt", .either u8 u32, orElse (narrowTo .u8 uint) uint⟩,
    ⟨"narrow_i16", .vec i16, sepBy (narrowTo .i16 long) ','⟩,
    ⟨"narrow_char", .char, narrowToChar uint⟩]

/-! ## What is skipped -/

def skipping : List Sample :=
  [⟨"lexeme_idents", .vec .text, kleene (lexeme (raw (alpha >>> kleene alnum)))⟩,
    ⟨"no_skip_a", .unused, noSkip (lit 'a')⟩,
    ⟨"skip_reenable", .text, noSkip (alpha >>> skip alpha)⟩,
    ⟨"lexeme_skip", .text, lexeme (alpha >>> skip (alpha >>> alpha) >>> alpha)⟩,
    ⟨"skip_with_dot", .tuple [i32, i32], skipWith (char '.') (int >>> int)⟩,
    ⟨"skip_with_in_lexeme", .tuple [i32, i32, i32],
      lexeme (int >>> skipWith (char '.') (lit '/' >>> int) >>> '/' >>> int)⟩,
    ⟨"skip_inside", .tuple [i32, i32], skipWith (char '.') (lexeme (int >>> ',' >>> skip int))⟩,
    ⟨"no_case_kw", .text, noCase (string "select") >>> char '!'⟩,
    ⟨"no_case_lit", .unused, noCase (word "straße")⟩,
    ⟨"no_case_range", .text, noCase (kleene (charRange 'a' 'f'))⟩,
    ⟨"no_case_set", .text, noCase (plus (charSet "xyzÀ-Þ"))⟩,
    ⟨"no_case_bool", .bool, noCase bool⟩,
    ⟨"no_case_rule", .text, noCase (plus upper)⟩]

/-! ## What is bound -/

def bindings : List Sample :=
  [⟨"with_level", .unused,
      withValue level 1 (eps >>> see "a" >>> withValue level 2 (see "b") >>> see "c")⟩,
    ⟨"with_hits", .text, withCell hits 10 (kleene hit)⟩,
    ⟨"with_local_hits", .vec .text, kleene (lexeme (withLocal hits (plus hit)))⟩,
    ⟨"without_level", .unused,
      withValue level 1
        (withValue level 2
          (without level (eps >>> see "a" >>> withValue level 3 (see "b")) >>> see "c"))⟩,
    ⟨"without_other", .unused,
      withCell hits 4
        (withValue level 2
          (without hits (see "a") >>> without level (see "b") >>>
            without hits (without level (see "c"))))⟩,
    ⟨"with_rule", .unused,
      withValue level 6
        (defining seenRule
          (eps >>> see "rule" >>> opt (lit '(' >>> call seenRule >>> ')')))⟩]

end Peg.Gallery
