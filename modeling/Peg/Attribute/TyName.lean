/-
  Peg.Attribute.TyName

  Reading the written form of a type. White space does not count.
-/
import Peg.Attribute.Ty
import Peg.Text.Blank

namespace Peg.Ty

/-- The types without parts. -/
def simple : List Ty :=
  [.unused, .text, .bool, .char, .single, .double, .user .token, .user .employee, .user .ident,
    .user .any] ++
    [IntTy.u8, .u16, .u32, .u64, .u128, .usize, .i8, .i16, .i32, .i64, .i128, .isize].map .int

/-- A type by its constructor and its parts. The short name of a small vector tells how many items
    it keeps inline. -/
def applied? : String → List Ty → Option Ty
  | "Box", [t] => some (.box t)
  | "Option", [t] => some (.option t)
  | "Either", [l, r] => some (.either l r)
  | "Vec", [t] => some (.vec t)
  | "VecDeque", [t] => some (.list .deque t)
  | "BTreeSet", [t] => some (.list .treeSet t)
  | "HashSet", [t] => some (.list .hashSet t)
  | "BTreeMap", [k, v] => some (.map .tree k v)
  | "HashMap", [k, v] => some (.map .hash k v)
  | "S2", [t] => some (.list (.small 2) t)
  | _, _ => none

/-- A decimal number at the front of a text. -/
def readNat (t : List Char) : Option Nat × List Char :=
  ((String.ofList (t.takeWhile Char.isDigit)).toNat?, t.dropWhile Char.isDigit)

mutual

/-- A type at the front of a text. -/
def read : Nat → List Char → Option (Ty × List Char)
  | 0, _ => none
  | n + 1, '(' :: r => (readMany ')' n r).map fun (ts, r) => (.tuple ts, r)
  | n + 1, t =>
    let word := String.ofList (t.takeWhile Char.isAlphanum)
    match simple.find? (·.name == word), t.dropWhile Char.isAlphanum with
    | some t, r => some (t, r)
    | none, '<' :: '[' :: r =>
      match read n r with
      | some (t, ';' :: r) =>
        match readNat r with
        | (some k, ']' :: '>' :: r) =>
          if word = "SmallVec" then some (.list (.small k) t, r) else none
        | _ => none
      | _ => none
    | none, '<' :: r => do
      let (ts, r) ← readMany '>' n r
      return (← applied? word ts, r)
    | _, _ => none

/-- Types with commas between them, up to a closing character. -/
def readMany (close : Char) : Nat → List Char → Option (List Ty × List Char)
  | 0, _ => none
  | _ + 1, [] => none
  | n + 1, c :: r =>
    if c = close then some ([], r)
    else do
      let (t, r) ← read n (c :: r)
      match r with
      | ',' :: r => do
        let (ts, r) ← readMany close n r
        return (t :: ts, r)
      | d :: r => if d = close then some ([t], r) else none
      | [] => none

end

/-- The type with a name. -/
def ofName? (name : String) : Option Ty :=
  let t := name.toList.filter fun c => !Text.isBlank c
  match read (t.length + 1) t with
  | some (t, []) => some t
  | _ => none

end Peg.Ty
