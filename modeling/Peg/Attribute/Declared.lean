/-
  Peg.Attribute.Declared

  The declarations in force: a variant over numbers and texts, a record of a name
  and an age, a record of a name and where it stands, and a type that holds any
  value whole. Each comes with what it can be assigned from.
-/
import Peg.Attribute.Convert

namespace Peg

/-! ## Sources -/

namespace Origin

variable [Declarations] {u : UserTy}

/-- From integers. -/
def ofInt (k : IntTy) (f : Int → Value)
    (h : ∀ n, k.holds n = true → (declared u).holds (f n) = true) : Origin u where
  ty := .int k
  convert
    | .int n => some (f n)
    | _ => none
  total v hv := by
    obtain ⟨n, rfl, hn⟩ := Value.isOf_int.mp hv
    exact ⟨f n, rfl, h n hn⟩

/-- From texts. -/
def ofText (f : String → Value) (h : ∀ s, (declared u).holds (f s) = true) : Origin u where
  ty := .text
  convert
    | .text s => some (f s)
    | _ => none
  total v hv := by
    obtain ⟨s, rfl⟩ := Value.isOf_string.mp hv
    exact ⟨f s, rfl, h s⟩

/-- From characters. -/
def ofChar (f : Char → Value) (h : ∀ c, (declared u).holds (f c) = true) : Origin u where
  ty := Ty.char
  convert
    | .char c => some (f c)
    | _ => none
  total v hv := by
    obtain ⟨c, rfl⟩ := Value.isOf_char.mp hv
    exact ⟨f c, rfl, h c⟩

/-- From optional values of a type that it is assigned from, with a value for nothing. -/
def ofOption (s : Origin u) (v : Value) (h : (declared u).holds v = true) : Origin u where
  ty := .option s.ty
  convert
    | .none => some v
    | .some w => s.convert w
    | _ => none
  total w hw := by
    rcases Value.isOf_option.mp hw with rfl | ⟨w, rfl, hw⟩
    · exact ⟨v, rfl, h⟩
    · exact s.total w hw

/-- From pairs of a number and a text. -/
def ofNumbered (k : IntTy) (f : Int → String → Value)
    (h : ∀ n s, k.holds n = true → (declared u).holds (f n s) = true) : Origin u where
  ty := .tuple [.int k, .text]
  convert
    | .tuple [.int n, .text s] => some (f n s)
    | _ => none
  total v hv := by
    obtain ⟨x, y, rfl, hx, hy⟩ := Value.isOf_pair.mp hv
    obtain ⟨n, rfl, hn⟩ := Value.isOf_int.mp hx
    obtain ⟨s, rfl⟩ := Value.isOf_string.mp hy
    exact ⟨f n s, rfl, h n s hn⟩

/-- From pairs of a text and a number. -/
def ofNamed (k : IntTy) (f : String → Int → Value)
    (h : ∀ s n, k.holds n = true → (declared u).holds (f s n) = true) : Origin u where
  ty := .tuple [.text, .int k]
  convert
    | .tuple [.text s, .int n] => some (f s n)
    | _ => none
  total v hv := by
    obtain ⟨x, y, rfl, hx, hy⟩ := Value.isOf_pair.mp hv
    obtain ⟨s, rfl⟩ := Value.isOf_string.mp hx
    obtain ⟨n, rfl, hn⟩ := Value.isOf_int.mp hy
    exact ⟨f s n, rfl, h s n hn⟩

end Origin

/-! ## Values -/

/-- The number of a token has 64 bits and a sign. -/
def Token.inRange : Token → Bool
  | .int n | .pair n _ => IntTy.i64.holds n
  | .nil | .text _ => true

/-- An age has 32 bits and no sign. -/
def Employee.inRange (e : Employee) : Bool := IntTy.u32.holds e.age

/-- Two comparisons one after the other tell two parts apart. -/
theorem eq_of_compare_then {α β : Type} [Ord α] [Std.LawfulEqOrd α] [Ord β] [Std.LawfulEqOrd β]
    {a a' : α} {b b' : β} (h : (compare a a').then (compare b b') = .eq) : a = a' ∧ b = b' := by
  obtain ⟨ha, hb⟩ := Ordering.then_eq_eq.mp h
  exact ⟨Std.LawfulEqOrd.eq_of_compare ha, Std.LawfulEqOrd.eq_of_compare hb⟩

theorem Token.eq_of_order : ∀ a b : Token, Value.order (.token a) (.token b) = .eq → a = b
  | .nil, .nil, _ => rfl
  | .int _, .int _, h => congrArg Token.int (Std.LawfulEqOrd.eq_of_compare h)
  | .text _, .text _, h => congrArg Token.text (Std.LawfulEqOrd.eq_of_compare h)
  | .pair _ _, .pair _ _, h => by
    obtain ⟨rfl, rfl⟩ := eq_of_compare_then h
    rfl

theorem Employee.eq_of_order : ∀ a b : Employee,
    Value.order (.employee a) (.employee b) = .eq → a = b
  | ⟨_, _⟩, ⟨_, _⟩, h => by
    obtain ⟨rfl, rfl⟩ := eq_of_compare_then h
    rfl

theorem Ident.eq_of_order : ∀ a b : Ident, Value.order (.ident a) (.ident b) = .eq → a = b
  | ⟨_, _⟩, ⟨_, _⟩, h => by
    obtain ⟨rfl, rfl⟩ := eq_of_compare_then h
    rfl

/-! ## Declarations -/

namespace Declaration

/-- A type whose values are those of `α` that are in range, each in one shape. -/
def shaped {α : Type} (variant : Bool) (make : α → Value) (read : Value → Option α)
    (inRange : α → Bool) (start : α) (hread : ∀ v a, read v = some a → v = make a)
    (hstart : (read (make start)).any inRange = true)
    (horder : ∀ a b, Value.order (make a) (make b) = .eq → a = b) : Declaration where
  variant
  holds v := (read v).any inRange
  start := make start
  start_holds := hstart
  ordered := true
  apart _ v w hv hw h := by
    obtain ⟨a, ha, -⟩ := (Option.any_eq_true ..).mp hv
    obtain ⟨b, hb, -⟩ := (Option.any_eq_true ..).mp hw
    obtain rfl := hread v a ha
    obtain rfl := hread w b hb
    rw [horder a b h]

def token : Declaration :=
  shaped true .token (fun | .token t => some t | _ => none) Token.inRange .nil
    (fun v _ h => by cases v <;> cases h; rfl) rfl Token.eq_of_order

def employee : Declaration :=
  shaped false .employee (fun | .employee e => some e | _ => none) Employee.inRange ⟨"", 0⟩
    (fun v _ h => by cases v <;> cases h; rfl) rfl Employee.eq_of_order

def ident : Declaration :=
  shaped false .ident (fun | .ident i => some i | _ => none) (fun _ => true) ⟨"", none⟩
    (fun v _ h => by cases v <;> cases h; rfl) rfl Ident.eq_of_order

/-- Values with a point are among those of the last type, and so nothing tells them all apart. -/
def any : Declaration where
  variant := false
  holds _ := true
  start := .unused
  start_holds := rfl
  ordered := false
  apart h := absurd h Bool.false_ne_true

end Declaration

/-- Of low priority, as is what comes with it: where the declarations are a parameter, the parameter
    is meant. -/
instance (priority := low) : Declarations where
  declared
    | .token => .token
    | .employee => .employee
    | .ident => .ident
    | .any => .any

/-! ## Conversions -/

namespace Token

/-- The person that a token stands for. -/
def toEmployee : Token → Employee
  | .text s => ⟨s, 1⟩
  | _ => ⟨"token", 2⟩

theorem toEmployee_inRange (t : Token) : t.toEmployee.inRange = true := by
  cases t <;> rfl

end Token

namespace Origin

/-- A person as a token, by age and name. -/
def tokenOfEmployee : Origin .token where
  ty := .user .employee
  convert
    | .employee e => some (.token (.pair e.age e.name))
    | _ => none
  total v hv := by
    cases v with
    | employee e =>
      have hage : IntTy.i64.holds e.age = true := IntTy.widens_holds (j := .u32) rfl hv
      exact ⟨.token (.pair e.age e.name), rfl, hage⟩
    | _ => cases hv

def employeeOfToken : Origin .employee where
  ty := .user .token
  convert
    | .token t => some (.employee t.toEmployee)
    | _ => none
  total v hv := by
    cases v with
    | token t => exact ⟨.employee t.toEmployee, rfl, t.toEmployee_inRange⟩
    | _ => cases hv

end Origin

instance (priority := low) : Conversions where
  origins
    | .token =>
      let number (k : IntTy) (h : IntTy.i64.widens k = true) : Origin .token :=
        .ofInt k (fun n => .token (.int n)) fun _ => IntTy.widens_holds h
      [number .i64 rfl, number .i32 rfl,
        .ofText (fun s => .token (.text s)) fun _ => rfl,
        .ofChar (fun c => .token (.text c.toString)) fun _ => rfl,
        .ofNumbered .i64 (fun n s => .token (.pair n s)) fun _ _ => id,
        .ofOption (number .i64 rfl) (.token .nil) rfl, .tokenOfEmployee]
    | .employee =>
      [.ofNamed .u32 (fun s n => .employee ⟨s, n⟩) fun _ _ => id,
        .ofText (fun s => .employee ⟨s, 0⟩) fun _ => rfl,
        .ofChar (fun c => .employee ⟨c.toString, 3⟩) fun _ => rfl,
        .ofInt .u32 (fun n => .employee ⟨"num", n⟩) fun _ => id,
        .ofOption (.ofInt .u32 (fun n => .employee ⟨"?", n⟩) fun _ => id)
          (.employee ⟨"?", 999⟩) rfl,
        .employeeOfToken]
    | .ident => [.ofText (fun s => .ident ⟨s, none⟩) fun _ => rfl]
    | .any => []

end Peg
