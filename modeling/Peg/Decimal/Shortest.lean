/-
  Peg.Decimal.Shortest

  The shortest decimal that reads back as a given number, and its plain
  positional text. For one digit, two digits and so on, the number's two
  neighbours on that decimal grid are tried; the first grid with a neighbour
  that rounds to the number wins, of two such neighbours the nearer one, and
  the upper one on a tie.
-/
import Peg.Decimal.Binary

namespace Peg.Decimal

/-- The numbers that round to `value / unit`: from `low / unit` to `high / unit`, with the ends
    when `closed`. -/
structure Rounding where
  value : Nat
  low : Nat
  high : Nat
  unit : Nat
  closed : Bool

/-- The rounding interval of the positive 64-bit number with significand `m` and last place
    `e`. Below a power of two the numbers are twice as dense. -/
def Rounding.of (m : Nat) (e : Int) : Rounding :=
  let (scale, unit) := if 0 ≤ e then (Nat.pow 2 e.toNat, 4)
    else (1, 4 * Nat.pow 2 (-e).toNat)
  let below := if m = Nat.pow 2 52 ∧ -1074 < e then 1 else 2
  { value := 4 * m * scale, low := (4 * m - below) * scale, high := (4 * m + 2) * scale,
    unit, closed := m % 2 == 0 }

/-- `n / d` rounds to the number. -/
def Rounding.holds (r : Rounding) (n d : Nat) : Bool :=
  let x := n * r.unit
  if r.closed then r.low * d ≤ x && x ≤ r.high * d else r.low * d < x && x < r.high * d

/-- The decimal `digits * 10 ^ exponent` as a fraction. -/
def fraction (x : Decimal) : Nat × Nat :=
  if 0 ≤ x.exponent then (x.digits * Nat.pow 10 x.exponent.toNat, 1)
  else (x.digits, Nat.pow 10 (-x.exponent).toNat)

/-- The exponent of the first digit of `num / den`, counted so that the number is below
    `10 ^` it, found by counting up from a lower bound. -/
def magnitude (num den : Nat) : Int :=
  let lower : Int := ((Nat.toDigits 10 num).length : Int) - (Nat.toDigits 10 den).length
  let (n, d) := fraction ⟨1, lower⟩
  if num * d < n * den then lower else lower + 1

/-- The neighbours of the number on the grid of multiples of `10 ^ e`. -/
def neighbours (r : Rounding) (e : Int) : Decimal × Decimal × Bool :=
  let (n, d) := if 0 ≤ e then (r.value, r.unit * Nat.pow 10 e.toNat)
    else (r.value * Nat.pow 10 (-e).toNat, r.unit)
  let q := n / d
  (⟨q, e⟩, ⟨q + 1, e⟩, 2 * (n % d) < d)

/-- The decimal of at most `k` digits that rounds to the number and is nearest to it. -/
def onGrid? (r : Rounding) (top : Int) (k : Nat) : Option Decimal :=
  let (down, up, downNearer) := neighbours r (top - k)
  let ok (x : Decimal) : Bool := let (n, d) := fraction x; x.digits != 0 && r.holds n d
  match ok down, ok up with
  | true, true => some (if downNearer then down else up)
  | true, false => some down
  | false, true => some up
  | false, false => none

/-- The shortest decimal that rounds to the positive number `m * 2 ^ e`. -/
def shortest (m : Nat) (e : Int) : Decimal :=
  let r := Rounding.of m e
  let top := magnitude r.value r.unit
  -- seventeen digits are always enough
  ((List.range 17).findSome? fun k => onGrid? r top (k + 1)).getD ⟨m, 0⟩

/-! ## Positional text -/

/-- A decimal without exponent, point or superfluous zeros where it can do without. -/
def positional (x : Decimal) : String :=
  let ds := Nat.toDigits 10 x.digits
  if 0 ≤ x.exponent then
    String.ofList (ds ++ List.replicate x.exponent.toNat '0')
  else
    let places := (-x.exponent).toNat
    let padded := List.replicate (places + 1 - ds.length) '0' ++ ds
    let whole := padded.take (padded.length - places)
    let part := ((padded.drop (padded.length - places)).reverse.dropWhile (· == '0')).reverse
    String.ofList (if part.isEmpty then whole else whole ++ '.' :: part)

/-- A 64-bit number in positional notation, with the fewest digits that read back. -/
def render (x : Float) : String :=
  let bits := x.toBits.toNat
  let sign := if bits < Nat.pow 2 63 then "" else "-"
  let biased := bits / Nat.pow 2 52 % 2048
  let part := bits % Nat.pow 2 52
  if biased = 2047 then
    if part = 0 then sign ++ "inf" else "NaN"
  else if biased = 0 ∧ part = 0 then sign ++ "0"
  else if biased = 0 then sign ++ positional (shortest part (-1074))
  else sign ++ positional (shortest (Nat.pow 2 52 + part) (Int.ofNat biased - 1075))

end Peg.Decimal
