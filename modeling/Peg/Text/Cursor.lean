/-
  Peg.Text.Cursor

  Texts as lists of characters measured in UTF-8 bytes, and cursors into them.
  A cursor is the number of bytes before it together with the characters after
  it, so moving forward never looks back. Byte counts are checked: a move that
  would stop inside a character or beyond the end has no result.
-/

namespace Peg

/-- A text, read character by character. -/
abbrev Text := List Char

namespace Text

/-! ## Byte measure -/

/-- Length in UTF-8 bytes. -/
def byteLength : Text → Nat
  | [] => 0
  | c :: r => c.utf8Size + byteLength r

/-- What follows the first `n` bytes, when a character or the end of the text starts there. -/
def dropBytes? : Text → Nat → Option Text
  | cs, 0 => some cs
  | [], _ + 1 => none
  | c :: r, n + 1 => if c.utf8Size ≤ n + 1 then dropBytes? r (n + 1 - c.utf8Size) else none

/-- The first `n` bytes, when they end with a character. -/
def takeBytes? : Text → Nat → Option Text
  | _, 0 => some []
  | [], _ + 1 => none
  | c :: r, n + 1 =>
    if c.utf8Size ≤ n + 1 then (takeBytes? r (n + 1 - c.utf8Size)).map (c :: ·) else none

/-- The bytes from `start` up to `stop`, when both lie on character boundaries in order. -/
def slice? (t : Text) (start stop : Nat) : Option Text :=
  if start ≤ stop then (dropBytes? t start).bind (takeBytes? · (stop - start)) else none

/-- Remove `word` from the front of a text. -/
def dropWord? : Text → Text → Option Text
  | [], t => some t
  | _ :: _, [] => none
  | w :: ws, c :: r => if w = c then dropWord? ws r else none

@[simp] theorem byteLength_nil : byteLength [] = 0 := rfl

@[simp] theorem byteLength_cons (c : Char) (t : Text) :
    byteLength (c :: t) = c.utf8Size + byteLength t := rfl

@[simp] theorem byteLength_append (s t : Text) :
    byteLength (s ++ t) = byteLength s + byteLength t := by
  induction s with
  | nil => simp
  | cons c s ih => simp [ih, Nat.add_assoc]

@[simp] theorem dropBytes?_zero (t : Text) : dropBytes? t 0 = some t := by cases t <;> rfl

theorem dropBytes?_append (before r : Text) :
    dropBytes? (before ++ r) (byteLength before) = some r := by
  induction before with
  | nil => simp
  | cons c before ih =>
    obtain ⟨k, hk⟩ : ∃ k, c.utf8Size + byteLength before = k + 1 :=
      ⟨c.utf8Size + byteLength before - 1, by have := c.utf8Size_pos; omega⟩
    rw [byteLength_cons, hk, List.cons_append, dropBytes?, if_pos (by omega)]
    rwa [show k + 1 - c.utf8Size = byteLength before by omega]

/-- Dropping bytes drops the characters that they make up. -/
theorem dropBytes?_eq_some_iff {t r : Text} {n : Nat} :
    dropBytes? t n = some r ↔ ∃ before, t = before ++ r ∧ n = byteLength before := by
  constructor
  · intro h
    fun_induction dropBytes? t n with
    | case1 t =>
      cases h
      exact ⟨[], rfl, rfl⟩
    | case2 => cases h
    | case3 c t n hle ih =>
      obtain ⟨before, rfl, hn⟩ := ih h
      exact ⟨c :: before, rfl, by rw [byteLength_cons]; omega⟩
    | case4 => cases h
  · rintro ⟨before, rfl, rfl⟩
    exact dropBytes?_append before r

theorem takeBytes?_append (before r : Text) :
    takeBytes? (before ++ r) (byteLength before) = some before := by
  induction before with
  | nil => cases r <;> rfl
  | cons c before ih =>
    obtain ⟨k, hk⟩ : ∃ k, c.utf8Size + byteLength before = k + 1 :=
      ⟨c.utf8Size + byteLength before - 1, by have := c.utf8Size_pos; omega⟩
    rw [byteLength_cons, hk, List.cons_append, takeBytes?, if_pos (by omega)]
    rw [show k + 1 - c.utf8Size = byteLength before by omega, ih]
    rfl

/-- Taking bytes takes the characters that they make up. -/
theorem takeBytes?_eq_some_iff {t before : Text} {n : Nat} :
    takeBytes? t n = some before ↔ ∃ after, t = before ++ after ∧ n = byteLength before := by
  constructor
  · intro h
    fun_induction takeBytes? t n generalizing before with
    | case1 t =>
      cases h
      exact ⟨t, rfl, rfl⟩
    | case2 => cases h
    | case3 c r n hle ih =>
      obtain ⟨taken, htaken, rfl⟩ := Option.map_eq_some_iff.mp h
      obtain ⟨after, rfl, hn⟩ := ih htaken
      exact ⟨after, rfl, by rw [byteLength_cons]; omega⟩
    | case4 => cases h
  · rintro ⟨after, rfl, rfl⟩
    exact takeBytes?_append before after

/-- There is one way to cut a text at a byte. -/
theorem append_inj_of_byteLength {s t s' t' : Text} (h : s ++ t = s' ++ t')
    (hlen : byteLength s = byteLength s') : s = s' ∧ t = t' := by
  have hs : s = s' := by
    have htake := takeBytes?_append s t
    rw [h, hlen, takeBytes?_append] at htake
    exact (Option.some.inj htake).symm
  subst hs
  exact ⟨rfl, List.append_cancel_left h⟩

/-- A character or the end of `t` starts after `n` bytes. -/
def IsBoundary (t : Text) (n : Nat) : Prop :=
  ∃ before after, t = before ++ after ∧ n = byteLength before

theorem isBoundary_iff {t : Text} {n : Nat} : IsBoundary t n ↔ (dropBytes? t n).isSome := by
  simp only [IsBoundary, Option.isSome_iff_exists, dropBytes?_eq_some_iff]
  exact exists_comm

instance (t : Text) (n : Nat) : Decidable (IsBoundary t n) := decidable_of_iff _ isBoundary_iff.symm

@[simp] theorem isBoundary_zero (t : Text) : IsBoundary t 0 := ⟨[], t, rfl, rfl⟩

theorem IsBoundary.le {t : Text} {n : Nat} (h : IsBoundary t n) : n ≤ byteLength t := by
  obtain ⟨before, after, rfl, rfl⟩ := h
  simp

end Text

/-! ## Cursors -/

/-- A place in a text: the bytes before it are counted, the characters after it are kept. -/
structure Cursor where
  offset : Nat
  rest : Text
  deriving DecidableEq, Repr

namespace Cursor

/-- The beginning of a text. -/
def start (t : Text) : Cursor := ⟨0, t⟩

def atEnd (c : Cursor) : Bool := c.rest.isEmpty

/-- The character at the cursor. -/
def peek? (c : Cursor) : Option Char := c.rest.head?

/-- Step over one character. -/
def next? : Cursor → Option (Char × Cursor)
  | ⟨_, []⟩ => none
  | ⟨n, c :: r⟩ => some (c, ⟨n + c.utf8Size, r⟩)

/-- Move `n` bytes ahead, unless that is inside a character or beyond the end. -/
def advance? (c : Cursor) (n : Nat) : Option Cursor :=
  (Text.dropBytes? c.rest n).map fun r => ⟨c.offset + n, r⟩

/-- The cursor at byte `n` of a text. -/
def at? (t : Text) (n : Nat) : Option Cursor := (start t).advance? n

/-- Step over `word` if it stands at the cursor. -/
def eat? (c : Cursor) (word : Text) : Option Cursor :=
  (Text.dropWord? word c.rest).map fun r => ⟨c.offset + Text.byteLength word, r⟩

/-- `c` stands in `t`: what it counts and what it keeps make up `t`. -/
def In (c : Cursor) (t : Text) : Prop :=
  ∃ before : Text, t = before ++ c.rest ∧ c.offset = Text.byteLength before

theorem start_in (t : Text) : (start t).In t := ⟨[], rfl, rfl⟩

theorem in_iff {c : Cursor} {t : Text} : c.In t ↔ Text.dropBytes? t c.offset = some c.rest :=
  Text.dropBytes?_eq_some_iff.symm

instance (c : Cursor) (t : Text) : Decidable (c.In t) := decidable_of_iff _ in_iff.symm

/-- A text has one place at each offset. -/
theorem In.eq_of_offset {c c' : Cursor} {t : Text} (h : c.In t) (h' : c'.In t)
    (hoffset : c'.offset = c.offset) : c' = c := by
  have hrest : some c'.rest = some c.rest := by
    rw [← in_iff.mp h, ← in_iff.mp h', hoffset]
  cases c
  cases c'
  simp_all

theorem In.isBoundary {c : Cursor} {t : Text} (h : c.In t) : t.IsBoundary c.offset := by
  obtain ⟨before, ht, hn⟩ := h
  exact ⟨before, c.rest, ht, hn⟩

/-- Moving ahead to a boundary of what is left succeeds and stays in the text. -/
theorem In.advance? {c : Cursor} {t : Text} {n : Nat} (h : c.In t) (hn : c.rest.IsBoundary n) :
    ∃ c', c.advance? n = some c' ∧ c'.In t ∧ c'.offset = c.offset + n := by
  obtain ⟨before, ht, ho⟩ := h
  obtain ⟨taken, rest, hr, rfl⟩ := hn
  refine ⟨⟨c.offset + Text.byteLength taken, rest⟩, ?_, ⟨before ++ taken, ?_, ?_⟩, rfl⟩
  · rw [Cursor.advance?, Text.dropBytes?_eq_some_iff.mpr ⟨taken, hr, rfl⟩]
    rfl
  · rw [ht, hr, List.append_assoc]
  · rw [ho, Text.byteLength_append]

/-- Stepping over the next character stays in the text. -/
theorem In.next {offset : Nat} {c : Char} {r t : Text} (h : (Cursor.mk offset (c :: r)).In t) :
    (Cursor.mk (offset + c.utf8Size) r).In t := by
  obtain ⟨before, ht, hn⟩ := h
  refine ⟨before ++ [c], ?_, ?_⟩
  · rw [ht, List.append_assoc]
    rfl
  · simp only [Text.byteLength_append, Text.byteLength_cons, Text.byteLength_nil] at hn ⊢
    omega

end Cursor

end Peg
