/-
  Peg.Context.Chain

  Chains of bindings, newest first. A binding gives a key a value, a mask hides
  every older value of a key, and an injected rule carries its definition. Each
  look-up scans from the newest link and stops at the first one that answers.
-/

namespace Peg

/-- A key that values are bound under. -/
abbrev Key := String

/-- One link of a chain with values of type `β` and rule definitions of type `ρ`. -/
inductive Link (β ρ : Type) where
  | bind (key : Key) (value : β)
  | hide (key : Key)
  | inject (rule : String) (definition : ρ)

abbrev Chain (β ρ : Type) := List (Link β ρ)

namespace Chain

variable {β ρ : Type}

/-! ## Look-up -/

/-- The value in sight under a key. -/
def find? (key : Key) : Chain β ρ → Option β
  | [] => none
  | .bind k v :: r => if k = key then some v else find? key r
  | .hide k :: r => if k = key then none else find? key r
  | .inject _ _ :: r => find? key r

/-- The newest definition injected for a rule. Masks do not hide rules. -/
def injected? (rule : String) : Chain β ρ → Option ρ
  | [] => none
  | .inject name d :: r => if name = rule then some d else injected? rule r
  | .bind _ _ :: r => injected? rule r
  | .hide _ :: r => injected? rule r

/-- The keys that a chain binds. -/
def keys : Chain β ρ → List Key
  | [] => []
  | .bind k _ :: r => if k ∈ keys r then keys r else k :: keys r
  | .hide _ :: r => keys r
  | .inject _ _ :: r => keys r

/-- Everything in sight, one entry for each key. -/
def inSight (c : Chain β ρ) : List (Key × β) :=
  (keys c).filterMap fun k => (find? k c).map fun v => (k, v)

/-! ## Editing -/

/-- The newest value bound under a key, masks aside. -/
def newest? (key : Key) : Chain β ρ → Option β
  | [] => none
  | .bind k v :: r => if k = key then some v else newest? key r
  | .hide _ :: r => newest? key r
  | .inject _ _ :: r => newest? key r

/-- Give the newest binding of a key another value. -/
def replaceFirst (key : Key) (value : β) : Chain β ρ → Chain β ρ
  | [] => []
  | .bind k v :: r =>
    if k = key then .bind k value :: r else .bind k v :: replaceFirst key value r
  | l :: r => l :: replaceFirst key value r

/-- Take the newest binding of a key out. -/
def removeFirst (key : Key) : Chain β ρ → Chain β ρ
  | [] => []
  | .bind k v :: r => if k = key then r else .bind k v :: removeFirst key r
  | l :: r => l :: removeFirst key r

end Chain

end Peg
