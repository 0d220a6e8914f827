/-
  Peg.Gallery.Operators

  Samples of operators: sequences and the tuples they make, choices, optional
  parts, and repetitions, each with the slots that take their attributes.
-/
import Peg.Gallery.Rules

namespace Peg.Gallery

open Peg.Notation

/-! ## Sequences -/

def sequences : List Sample :=
  [⟨"pair", .tuple [i32, i32], int >>> ',' >>> int⟩,
    ⟨"pair_wide", .tuple [i64, i64], int >>> ',' >>> int⟩,
    ⟨"pair_vec", .vec i32, int >>> ',' >>> int⟩,
    ⟨"pair_vec64", .vec i64, int >>> ',' >>> long⟩,
    ⟨"pair_opt", .option (.tuple [i32, i32]), int >>> ',' >>> int⟩,
    ⟨"pair_unused", .unused, int >>> ',' >>> int⟩,
    ⟨"triple", .tuple [i32, .char, .double], int >>> ',' >>> alpha >>> ',' >>> double⟩,
    ⟨"lits_only", .unused, lit 'a' >>> 'b' >>> "cd"⟩,
    ⟨"one_present", .char, digit >>> ':' >>> "end"⟩,
    ⟨"nested_seq", .tuple [i32, .tuple [i32, i32]],
      int >>> ',' >>> group (int >>> ',' >>> int)⟩,
    ⟨"seq12", .tuple (List.replicate 12 u32), inRow 12 oneDigit⟩,
    ⟨"seq12_vec", .vec u64, inRow 12 oneDigit⟩,
    ⟨"seq13", .tuple [.tuple (List.replicate 12 u32), u32], inRow 13 oneDigit⟩,
    ⟨"seq13_unused", .vec u32,
      lit 'a' >>> oneDigit >>> 'b' >>> oneDigit >>> 'c' >>> oneDigit >>> 'd' >>> oneDigit >>>
        'e' >>> oneDigit >>> 'f' >>> oneDigit >>> 'g'⟩,
    ⟨"seq14", .tuple [.tuple (List.replicate 12 u32), u32, .text],
      inRow 13 oneDigit >>> string "z"⟩,
    ⟨"seq7", .tuple (List.replicate 7 .char), inRow 7 anyChar⟩,
    ⟨"seq8_str", .text, inRow 8 anyChar⟩,
    ⟨"seq9_str", .text, inRow 9 anyChar⟩,
    ⟨"seq10_str", .text, inRow 10 anyChar⟩,
    ⟨"seq11_str", .text, inRow 11 anyChar⟩]

/-! ## Choices -/

def choices : List Sample :=
  [⟨"alt_either", .either i32 .char, orElse int alpha⟩,
    ⟨"alt_token", token, orElse int (into .text (plus alpha))⟩,
    ⟨"alt3", .either (.either i32 .char) .text, orElse (orElse int upper) (plus lower)⟩,
    ⟨"alt_opt_left", .option i32, orElse int 'x'⟩,
    ⟨"alt_opt_right", .option i32, orElse (lit 'x') int⟩,
    ⟨"alt_unused", .unused, orElse (word "ab") "a"⟩,
    ⟨"alt_same_vec", .vec u32, orElse (sepBy uint ',' >>> '!') (sepBy uint ',' >>> '?')⟩,
    ⟨"alt_attr", .vec i32,
      orElse (int >>> int >>> epsIf false) (yields i32 (.int 98) >>> yields i32 (.int 99))⟩,
    ⟨"alt_foodie", .text, orElse (string "foo" >>> "fan") (string "foodie")⟩,
    ⟨"alt_str_char", .text, orElse (string "ab") anyChar⟩,
    ⟨"alt_vec_opt", .vec (.option .char), orElse upper '-'⟩,
    ⟨"opt_int", .option i32, opt int⟩,
    ⟨"opt_wide", .option i64, opt int⟩,
    ⟨"opt_lit", .unused, opt (lit 'x')⟩,
    ⟨"opt_opt", .option (.option i32), opt (opt int)⟩,
    ⟨"opt_into_vec", .vec i32, opt int⟩,
    ⟨"opt_seq_vec", .vec (.option .char), anyChar >>> opt anyChar⟩,
    ⟨"opt_seq_string", .text, anyChar >>> opt anyChar >>> opt (string "yz")⟩,
    ⟨"opt_tuple", .option (.tuple [i32, i32]), opt (int >>> ',' >>> int)⟩,
    ⟨"opt_tuple_vec", .vec i32, opt (int >>> ',' >>> int)⟩]

/-! ## Repetitions -/

def repetitions : List Sample :=
  [⟨"kleene_digit", .text, kleene digit⟩,
    ⟨"kleene_int_vec", .vec i64, kleene int⟩,
    ⟨"kleene_lit", .unused, kleene (lit 'a')⟩,
    ⟨"kleene_eps", .unused, kleene eps⟩,
    ⟨"kleene_opt", .vec (.option i32), kleene (opt int)⟩,
    ⟨"kleene_string", .vec .text, kleene (lexeme (plus alpha))⟩,
    ⟨"kleene_pairs_flat", .text, kleene (alpha >>> digit)⟩,
    ⟨"kleene_pairs", .vec (.tuple [.char, .char]), kleene (alpha >>> digit)⟩,
    ⟨"kleene_deque", .list .deque i32, kleene int⟩,
    ⟨"kleene_set", .list .treeSet .char, kleene anyChar⟩,
    ⟨"kleene_hset", .list .hashSet i32, sepBy int ','⟩,
    ⟨"kleene_small", .list (.small 2) u32, sepBy uint ','⟩,
    ⟨"kleene_rows", .vec (.list (.small 2) u32), sepBy (sepBy uint ',') ';'⟩,
    ⟨"kleene_map", .map .tree .text i32, sepBy (lexeme (plus alpha) >>> '=' >>> int) ','⟩,
    ⟨"kleene_hmap", .map .hash .char u32, kleene (alpha >>> uint)⟩,
    ⟨"map_single", .map .tree .char i32, alpha >>> int⟩,
    ⟨"attr_kleene", .vec i32, kleene (yields i32 (.int 7))⟩,
    ⟨"plus_digit", .text, plus digit⟩,
    ⟨"plus_into_vec_str", .vec .text, plus digit⟩,
    ⟨"list_uint", .vec u32, sepBy uint ','⟩,
    ⟨"list_char", .text, sepBy alpha ','⟩,
    ⟨"list_str_flat", .text, sepBy (plus alpha) ','⟩,
    ⟨"list_str", .vec .text, sepBy (plus alpha) ','⟩,
    ⟨"list_fn", .vec i32, sepBy int "::"⟩,
    ⟨"list_delim_attr", .vec i32, sepBy int (orElse (char ';') (char ','))⟩,
    ⟨"list_of_list", .vec (.vec i32), sepBy (sepBy int ',') ';'⟩,
    ⟨"list_of_list_flat", .vec i32, sepBy (sepBy int ',') ';'⟩,
    ⟨"list_tokens", .vec token, sepBy (orElse long (lexeme (plus alpha))) ','⟩,
    ⟨"list_tail", .tuple [.vec i32, .char], sepBy int ',' >>> ';' >>> anyChar⟩,
    ⟨"list_eps", .vec i32, sepBy (yields i32 (.int 3)) eps⟩,
    ⟨"fields", .text, kleene (charNot ',') >>> kleene (lit ',' >>> kleene (charNot ','))⟩,
    ⟨"fields_vec", .vec .text,
      kleene (charNot ',') >>> kleene (lit ',' >>> kleene (charNot ','))⟩,
    ⟨"repeat_exact", .text, exactly 8 alpha >>> 'X'⟩,
    ⟨"repeat_range", .text, between 2 4 alpha⟩,
    ⟨"repeat_from", .text, atLeast 2 alpha⟩,
    ⟨"repeat_zero", .text, exactly 0 alpha >>> anyChar⟩,
    ⟨"repeat_inverted", .text, between 3 2 alpha⟩,
    ⟨"repeat_eps", .unused, exactly 5 eps⟩,
    ⟨"repeat_from_eps", .unused, atLeast 2 eps⟩,
    ⟨"repeat_attr", .vec i32, exactly 3 (yields i32 (.int 5))⟩,
    ⟨"repeat_pairs", .vec (.tuple [i32, .char]), exactly 2 (int >>> alpha)⟩,
    ⟨"seek_uint", u32, seek uint⟩,
    ⟨"seek_all", .vec u32, kleene (seek uint)⟩,
    ⟨"seek_eoi", .unused, seek eoi⟩]

end Peg.Gallery
