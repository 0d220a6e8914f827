/-
  Peg.Attribute.Value

  The values of attributes, and the order that sorted collections keep.
-/
import Peg.Attribute.Ty

namespace Peg

/-- The declared variant. -/
inductive Token where
  | nil
  | int (n : Int)
  | text (s : String)
  | pair (n : Int) (s : String)
  deriving DecidableEq, Repr

/-- The declared record of a person. -/
structure Employee where
  name : String
  age : Int
  deriving DecidableEq, Repr

/-- The declared record of a name in a text; the tag numbers its recorded position. -/
structure Ident where
  name : String
  tag : Option Nat
  deriving DecidableEq, Repr

/-- The values of attributes. A value does not say how wide its integers are or which sort of
    collection it is in; its type does. Sorted collections and maps keep their items in
    increasing order, entries of maps are pairs. -/
inductive Value where
  | unused
  | bool (b : Bool)
  | int (n : Int)
  | char (c : Char)
  | single (x : Float32)
  | double (x : Float)
  | text (s : String)
  | none
  | some (v : Value)
  | left (v : Value)
  | right (v : Value)
  | tuple (vs : List Value)
  | seq (vs : List Value)
  | token (t : Token)
  | employee (e : Employee)
  | ident (i : Ident)

namespace Value

instance : Inhabited Value := ⟨.unused⟩

/-! ## Order -/

/-- A number for each shape of value. -/
def shape : Value → Nat
  | .unused => 0
  | .bool _ => 1
  | .int _ => 2
  | .char _ => 3
  | .single _ => 4
  | .double _ => 5
  | .text _ => 6
  | .none => 7
  | .some _ => 8
  | .left _ => 9
  | .right _ => 10
  | .tuple _ => 11
  | .seq _ => 12
  | .token _ => 13
  | .employee _ => 14
  | .ident _ => 15

mutual

/-- The order of sorted collections: numbers by size, characters and texts by code points,
    nothing before something, collections slot by slot. -/
def order : Value → Value → Ordering
  | .bool a, .bool b => compare a b
  | .int a, .int b => compare a b
  | .char a, .char b => compare a.toNat b.toNat
  | .text a, .text b => compare a b
  | .some a, .some b => order a b
  | .left a, .left b => order a b
  | .right a, .right b => order a b
  | .tuple as, .tuple bs => orderList as bs
  | .seq as, .seq bs => orderList as bs
  | .single a, .single b => compare a.toBits b.toBits
  | .double a, .double b => compare a.toBits b.toBits
  | .employee a, .employee b => (compare a.name b.name).then (compare a.age b.age)
  | .ident a, .ident b => (compare a.name b.name).then (compare a.tag b.tag)
  | .token (.int a), .token (.int b) => compare a b
  | .token (.text a), .token (.text b) => compare a b
  | .token (.pair a s), .token (.pair b t) => (compare a b).then (compare s t)
  | .token .nil, .token .nil => .eq
  | .token .nil, .token _ => .lt
  | .token _, .token .nil => .gt
  | .token (.int _), .token _ => .lt
  | .token _, .token (.int _) => .gt
  | .token (.text _), .token _ => .lt
  | .token _, .token (.text _) => .gt
  | a, b => compare a.shape b.shape

def orderList : List Value → List Value → Ordering
  | [], [] => .eq
  | [], _ :: _ => .lt
  | _ :: _, [] => .gt
  | a :: as, b :: bs => (order a b).then (orderList as bs)

end

/-- Put a value into a sorted list, once. -/
def insertSorted (v : Value) : List Value → List Value
  | [] => [v]
  | w :: ws =>
    match order v w with
    | .lt => v :: w :: ws
    | .eq => w :: ws
    | .gt => w :: insertSorted v ws

/-- The key of an entry. -/
def key : Value → Value
  | .tuple (k :: _) => k
  | v => v

/-- Put an entry into a list sorted by key; an entry with that key is replaced. -/
def insertEntry (v : Value) : List Value → List Value
  | [] => [v]
  | w :: ws =>
    match order (key v) (key w) with
    | .lt => v :: w :: ws
    | .eq => v :: ws
    | .gt => w :: insertEntry v ws

/-- Each value comes before the next one. -/
def increasing (f : Value → Value) : List Value → Bool
  | [] => true
  | [_] => true
  | a :: b :: r => order (f a) (f b) == .lt && increasing f (b :: r)

end Value

end Peg
