/-
  Peg.Terminal.IntegerName

  Short names of integer terminals: a word for the common ones, or else the type
  followed by the base and the least and greatest number of digits, as far as
  these are not the usual ones, with slashes between them. Signed types take a
  sign.
-/
import Peg.Terminal.Integer

namespace Peg.Integer

/-- The common integers that have a word of their own. -/
def words : List (String × Integer) :=
  [("uint", { ty := .u32 }),
    ("ulong", { ty := .u64 }),
    ("ushort", { ty := .u16 }),
    ("bin", { ty := .u32, radix := 2 }),
    ("oct", { ty := .u32, radix := 8 }),
    ("hex", { ty := .u32, radix := 16 }),
    ("int", { ty := .i32, allowSign := true }),
    ("long", { ty := .i64, allowSign := true }),
    ("short", { ty := .i16, allowSign := true })]

/-- The integer type with a name. -/
def tyOfName? (name : String) : Option IntTy :=
  [IntTy.u8, .u16, .u32, .u64, .u128, .usize, .i8, .i16, .i32, .i64, .i128, .isize].find?
    (·.name == name)

/-- The integer with these fields of a name; the usual value for a field that is left out. -/
def ofFields? : List String → Option Integer
  | [] => none
  | ty :: fields => do
    let ty ← tyOfName? ty
    let numbers ← fields.mapM (·.toNat?)
    return { ty, radix := numbers[0]?.getD 10, minDigits := numbers[1]?.getD 1,
             maxDigits := numbers[2]?, allowSign := ty.signed }

/-- The integer with a name. -/
def ofName? (name : String) : Option Integer :=
  (words.lookup name).or (ofFields? (name.splitOn "/"))

end Peg.Integer
