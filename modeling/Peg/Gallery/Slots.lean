/-
  Peg.Gallery.Slots

  Samples of terminals, of slots of declared types, and of rules.
-/
import Peg.Gallery.Rules

namespace Peg.Gallery

open Peg.Notation

/-! ## Terminals -/

def terminals : List Sample :=
  [⟨"eps_if_true", .unused, epsIf true⟩,
    ⟨"eps_if_false", .option .char, opt (epsIf false >>> alpha)⟩,
    ⟨"eoi_after", i32, int >>> eoi⟩,
    ⟨"eol_lines", .vec .text, sepBy (kleene (charSet "a-z")) eol⟩,
    ⟨"attr_bang", .text, alpha >>> yields .char (.char '!')⟩,
    ⟨"attr_only", .tuple [i32, .text], yields i32 (.int 5) >>> yields .text (.text "five")⟩,
    ⟨"sym_numerals", u32, numerals⟩,
    ⟨"sym_no_case", .vec .char, noCase (plus units)⟩,
    ⟨"sym_case", .vec .char, plus units⟩,
    ⟨"sym_ref_list", .vec u32, sepBy numerals '+'⟩,
    ⟨"base36", u32, integer { ty := .u32, radix := 36 }⟩,
    ⟨"two_digits", .tuple [u32, u32], digits 2 2 >>> digits 1 2⟩,
    ⟨"signed36", i64, integer { ty := .i64, radix := 36, allowSign := true }⟩,
    ⟨"date", .tuple [u32, u32, u32], digits 4 4 >>> '-' >>> digits 2 2 >>> '-' >>> digits 2 2⟩,
    ⟨"rgb", .vec u8, lit '#' >>> exactly 3 hexByte⟩,
    ⟨"reals", .vec .double, sepBy double ','⟩,
    ⟨"floats", .vec .single, sepBy single ','⟩,
    ⟨"floats_wide", .vec .double, sepBy single ','⟩,
    ⟨"bools", .vec .bool, sepBy bool '|'⟩]

/-! ## Declared types -/

def declared : List Sample :=
  [⟨"box_int", .box i32, int⟩,
    ⟨"employee", employee, lexeme (plus alpha) >>> ':' >>> uint⟩,
    ⟨"employees", .vec employee, kleene (lexeme (plus alpha) >>> ':' >>> uint)⟩,
    ⟨"employee_opt", employee, opt uint⟩,
    ⟨"token_tuple", token, long >>> ':' >>> lexeme (plus alpha)⟩,
    ⟨"token_opt", token, opt long⟩,
    ⟨"token_seq", .vec token, long >>> lexeme (plus alpha)⟩]

/-! ## Rules -/

def ruleUses : List Sample :=
  [⟨"rule_ab", .unused, call abChainRule⟩,
    ⟨"rule_ab_injected", .unused,
      defining abChainRule (orElse (lit 'a') 'b' >>> orElse (call abChainRule) 'b')⟩,
    ⟨"rule_override", .text,
      defining digitsRule (plus alpha >>> opt (lit ':' >>> call digitsRule))⟩,
    ⟨"rule_digits", .text, call digitsRule⟩,
    ⟨"rule_pairs", .vec (.tuple [u32, u32]), sepBy (call pairRule) ';'⟩,
    ⟨"rule_pair_flat", .vec u64, sepBy (call pairRule) ';'⟩,
    ⟨"rule_restore", .text, orElse (raw (call pairRule >>> '!')) (raw (uint >>> ",?"))⟩,
    ⟨"rule_silent", .text, call silentRule⟩,
    ⟨"rule_loud", .text, call loudRule⟩,
    ⟨"rule_as_loud", .text, call asLoudRule⟩,
    ⟨"rule_define_plain", .text, defining digitsRule (act Action.none (plus digit))⟩,
    ⟨"rule_define_forced", .text, definingForced digitsRule (act Action.none (plus digit))⟩,
    ⟨"rule_sum", i32, call sumRule⟩,
    ⟨"rule_wrong_val", i32, call wrongValRule⟩,
    ⟨"rule_nested", u32, nested⟩,
    ⟨"rule_key_values", .vec (.tuple [.text, i64]), sepBy (call keyValueRule) ';'⟩,
    ⟨"rule_key_map", .map .tree .text i64, sepBy (call keyValueRule) ';'⟩,
    ⟨"rule_items", .tuple [.vec (.vec u32), .option .text],
      kleene (call itemRule) >>> opt (raw (plus alpha))⟩,
    ⟨"rule_tokens", .vec token, sepBy (call jsonTokRule) ','⟩,
    ⟨"rule_person", employee, call personRule⟩,
    ⟨"rule_csv", .vec (.vec i32), call csvRule⟩,
    ⟨"rule_csv_flat", .vec i64, call csvRule⟩,
    ⟨"rule_opt", .option i64, call optRule⟩,
    ⟨"rule_sexpr", u32, call sExprRule⟩,
    ⟨"rule_even", u32, call evenRule⟩,
    ⟨"rule_even_alt", .either u32 .text, orElse (call evenRule) (raw uint)⟩,
    ⟨"rule_even2", u32, call even2Rule⟩,
    ⟨"rule_errors", .unused, call errOuterRule⟩,
    ⟨"rule_document", .unused,
      defining documentRule (word "foo" >>> expect (call barRule) >>> expect (word "git"))⟩,
    ⟨"rule_undefined", u32, call nestedRule⟩]

end Peg.Gallery
