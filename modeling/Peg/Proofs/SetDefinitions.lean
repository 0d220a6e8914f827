/-
  Peg.Proofs.SetDefinitions

  Dashes at the ends of set definitions. A definition is read as items, characters and
  ranges: the one list of items that is spelled like it and in which no character could
  begin a range (`spelled_read`, `read_spelled`). A dash in front begins a range if a
  dash and one more character follow. A dash behind ends a range if the items before it
  end with a character and a dash (`read_append_dash_of_open`). In all other cases the
  two are characters of the set (`set_dash_at_ends`).
-/
import Peg.Proofs.SingleCharacters

namespace Peg

open Text

/-! ## Reading a definition -/

/-- The items of a set definition: characters that stand for themselves, and ranges. -/
inductive SetItem where
  | single (c : Char)
  | range (lo hi : Char)
  deriving DecidableEq, Repr

namespace SetItem

/-- The ends of the range. -/
def bounds : SetItem → Char × Char
  | single c => (c, c)
  | range lo hi => (lo, hi)

/-- How an item is written. -/
def spelling : SetItem → Text
  | single c => [c]
  | range lo hi => [lo, '-', hi]

/-- The definition with these items. -/
def spelled (is : List SetItem) : Text := is.flatMap spelling

@[simp] theorem spelled_nil : spelled [] = [] := rfl

@[simp] theorem spelled_cons (i : SetItem) (is : List SetItem) :
    spelled (i :: is) = i.spelling ++ spelled is := rfl

@[simp] theorem spelled_append (is js : List SetItem) :
    spelled (is ++ js) = spelled is ++ spelled js := List.flatMap_append

/-- A character in front of the text would begin a range. -/
def OpensRange (t : Text) : Prop := ∃ hi r, t = '-' :: hi :: r

/-- The items of a text, from the left. -/
def read : Text → List SetItem
  | lo :: '-' :: hi :: r => range lo hi :: read r
  | c :: r => single c :: read r
  | [] => []

/-- No character among the items would begin a range. -/
def Legible : List SetItem → Prop
  | [] => True
  | single _ :: is => ¬ OpensRange (spelled is) ∧ Legible is
  | range _ _ :: is => Legible is

theorem read_single {c : Char} {r : Text} (h : ¬ OpensRange r) :
    read (c :: r) = single c :: read r := by
  rw [read]
  rintro hi r' rfl
  exact h ⟨hi, r', rfl⟩

/-- The items of a text spell it, and are legible. -/
theorem spelled_read (t : Text) : spelled (read t) = t ∧ Legible (read t) := by
  fun_induction read t with
  | case1 lo hi r ih => exact ⟨congrArg _ ih.1, ih.2⟩
  | case2 c r hr ih =>
    refine ⟨congrArg (c :: ·) ih.1, ?_, ih.2⟩
    rw [ih.1]
    rintro ⟨hi, r', rfl⟩
    exact hr hi r' rfl
  | case3 => exact ⟨rfl, trivial⟩

/-- Legible items are read back. So a text has one list of items that is legible. -/
theorem read_spelled {is : List SetItem} (h : Legible is) : read (spelled is) = is := by
  induction is with
  | nil => rfl
  | cons i is ih =>
    cases i with
    | single c =>
      have hread := read_single (c := c) h.1
      rw [ih h.2] at hread
      exact hread
    | range lo hi => exact congrArg (range lo hi :: ·) (ih h)

/-- What an item accepts. -/
def test (i : SetItem) (noCase : Bool) (c : Char) : Bool :=
  CharTest.testRange i.bounds.1 i.bounds.2 noCase c

theorem ranges_eq (t : Text) : CharTest.ranges t = (read t).map bounds := by
  fun_induction read t with
  | case1 lo hi r ih => exact congrArg ((lo, hi) :: ·) ih
  | case2 c r hr ih =>
    rw [CharTest.ranges, ih, List.map_cons, bounds]
    exact hr
  | case3 => rfl

/-! ## A dash behind the items -/

theorem OpensRange.append {t : Text} (h : OpensRange t) (s : Text) : OpensRange (t ++ s) := by
  obtain ⟨hi, r, rfl⟩ := h
  exact ⟨hi, r ++ s, rfl⟩

/-- Two characters tell whether a range begins. -/
theorem OpensRange.of_append {t s : Text} (h : OpensRange (t ++ s)) (hlen : 2 ≤ t.length) :
    OpensRange t := by
  obtain ⟨hi, r, heq⟩ := h
  match t, hlen with
  | c :: d :: t', _ =>
    cases heq
    exact ⟨hi, t', rfl⟩

/-- With one more character a range can begin only where a dash was the last. -/
theorem OpensRange.of_append_singleton {t : Text} {c : Char} (h : OpensRange (t ++ [c])) :
    t = ['-'] ∨ OpensRange t := by
  match t with
  | [] =>
    obtain ⟨hi, r, heq⟩ := h
    cases heq
  | [d] =>
    obtain ⟨hi, r, heq⟩ := h
    cases heq
    exact .inl rfl
  | _ :: _ :: _ => exact .inr (h.of_append (by simp))

theorem Legible.of_append {is js : List SetItem} (h : Legible (is ++ js)) : Legible is := by
  induction is with
  | nil => trivial
  | cons i is ih =>
    cases i with
    | single c => exact ⟨fun hopens => h.1 (spelled_append is js ▸ hopens.append _), ih h.2⟩
    | range lo hi => exact ih h

/-- A dash is one more character if a character and a dash are not the last items. -/
theorem Legible.append_dash {is : List SetItem} (h : Legible is)
    (hend : ∀ before lo, is ≠ before ++ [single lo, single '-']) :
    Legible (is ++ [single '-']) := by
  induction is with
  | nil =>
    refine ⟨?_, trivial⟩
    rintro ⟨hi, r, heq⟩
    cases heq
  | cons i is ih =>
    have hrest : ∀ before lo, is ≠ before ++ [single lo, single '-'] :=
      fun before lo heq => hend (i :: before) lo (congrArg (i :: ·) heq)
    cases i with
    | single c =>
      refine ⟨fun hopens : OpensRange (spelled (is ++ [single '-'])) => ?_, ih h.2 hrest⟩
      rw [spelled_append] at hopens
      rcases hopens.of_append_singleton with hdash | hopens
      · -- the dash before the new one is the last item, and this character stands before it
        have his : is = [single '-'] := by rw [← read_spelled h.2, hdash]; rfl
        exact hend [] c (congrArg (single c :: ·) his)
      · exact h.1 hopens
    | range lo hi => exact ih h hrest

/-- Otherwise it makes a range of these two. -/
theorem Legible.append_range {before : List SetItem} {lo : Char}
    (h : Legible (before ++ [single lo, single '-'])) : Legible (before ++ [range lo '-']) := by
  induction before with
  | nil => trivial
  | cons i before ih =>
    cases i with
    | single c =>
      refine ⟨fun hopens => h.1 ?_, ih h.2⟩
      have hspelled : spelled (before ++ [range lo '-']) =
          spelled (before ++ [single lo, single '-']) ++ ['-'] := by simp [spelling]
      exact OpensRange.of_append (hspelled ▸ hopens) (by simp [spelling])
    | range lo' hi => exact ih h

theorem read_append_dash {t : Text}
    (hend : ∀ before lo, read t ≠ before ++ [single lo, single '-']) :
    read (t ++ ['-']) = read t ++ [single '-'] := by
  obtain ⟨hspelled, hlegible⟩ := spelled_read t
  calc read (t ++ ['-']) = read (spelled (read t ++ [single '-'])) := by
        rw [spelled_append, hspelled]; rfl
    _ = read t ++ [single '-'] := read_spelled (hlegible.append_dash hend)

theorem read_append_dash_of_open {t : Text} {before : List SetItem} {lo : Char}
    (h : read t = before ++ [single lo, single '-']) :
    read (t ++ ['-']) = before ++ [range lo '-'] := by
  obtain ⟨hspelled, hlegible⟩ := spelled_read t
  rw [h] at hspelled hlegible
  calc read (t ++ ['-']) = read (spelled (before ++ [range lo '-'])) := by
        rw [← hspelled]; simp [spelling]
    _ = before ++ [range lo '-'] := read_spelled hlegible.append_range

end SetItem

namespace CharTest

/-- A character before the letters is a form of no other character. -/
theorem eq_of_mem_forms {c x : Char} (hx : x ∈ lowerCase c ∨ x ∈ upperCase c)
    (hlow : x.toNat < 'A'.toNat) : x = c := by
  rcases hx with hx | hx
  · exact eq_of_mem_cased (by decide) (by decide +kernel) (by decide +kernel) hx hlow
  · exact eq_of_mem_cased (by decide) (by decide +kernel) (by decide +kernel) hx hlow

/-- A range that ends before the letters is the same without case. -/
theorem testRange_of_low {lo hi : Char} (hhi : hi.toNat < 'A'.toNat) (noCase : Bool) (c : Char) :
    testRange lo hi noCase c = within lo hi c := by
  rw [testRange, Bool.or_eq_left_iff_imp, Bool.and_eq_true, Bool.or_eq_true, List.any_eq_true,
    List.any_eq_true]
  rintro ⟨-, hform⟩
  obtain ⟨x, hx, hin⟩ : ∃ x, (x ∈ lowerCase c ∨ x ∈ upperCase c) ∧ within lo hi x = true := by
    rcases hform with ⟨x, hx, hin⟩ | ⟨x, hx, hin⟩
    · exact ⟨x, .inl hx, hin⟩
    · exact ⟨x, .inr hx, hin⟩
  have hle : x ≤ hi := by
    rw [within, Bool.and_eq_true, decide_eq_true_eq, decide_eq_true_eq] at hin
    exact hin.2
  have hlow : x.toNat < 'A'.toNat := Nat.lt_of_le_of_lt hle hhi
  rwa [← eq_of_mem_forms hx hlow]

/-- The dash has no case. -/
theorem testRange_dash (noCase : Bool) (c : Char) :
    testRange '-' '-' noCase c = true ↔ c = '-' := by
  rw [testRange_of_low (by decide), within_self_iff]

/-- A range that begins with the dash has it, unless it is empty. -/
theorem testRange_from_dash (hi : Char) (noCase : Bool) :
    testRange '-' hi noCase '-' = true ↔ '-' ≤ hi := by
  have hlower : lowerCase '-' = ['-'] := rfl
  have hupper : upperCase '-' = ['-'] := rfl
  simp [testRange, hlower, hupper, within]

/-! ## Sets -/

theorem test_set (t : Text) (noCase : Bool) (c : Char) :
    (set t).test noCase c = (SetItem.read t).any (·.test noCase c) := by
  rw [test, SetItem.ranges_eq, List.any_map]
  rfl

open SetItem

/-- A first dash is in the set, unless a dash and a character follow that is before the dash: this
    is a range without characters. Then the rest tells. -/
theorem test_set_dash_first (t : Text) (noCase : Bool) :
    (set ('-' :: t)).test noCase '-' = true ↔
      ∀ hi r, t = '-' :: hi :: r → '-' ≤ hi ∨ (set r).test noCase '-' = true := by
  by_cases hopens : OpensRange t
  · obtain ⟨hi, r, rfl⟩ := hopens
    have hread : read ('-' :: '-' :: hi :: r) = .range '-' hi :: read r := rfl
    have hrange : (SetItem.range '-' hi).test noCase '-' = true ↔ '-' ≤ hi :=
      testRange_from_dash hi noCase
    rw [test_set, hread, List.any_cons, Bool.or_eq_true, hrange, ← test_set]
    constructor
    · rintro h hi' r' ⟨⟩
      exact h
    · exact fun h => h hi r rfl
  · have hdash : (SetItem.single '-').test noCase '-' = true := (testRange_dash noCase '-').mpr rfl
    rw [test_set, read_single hopens, List.any_cons, hdash, Bool.true_or]
    exact ⟨fun _ hi r ht => absurd ⟨hi, r, ht⟩ hopens, fun _ => rfl⟩

/-- A last dash that ends no range is one more character. -/
theorem test_set_dash_last {t : Text}
    (hend : ∀ before lo, read t ≠ before ++ [SetItem.single lo, SetItem.single '-'])
    (noCase : Bool) (c : Char) :
    (set (t ++ ['-'])).test noCase c = true ↔ (set t).test noCase c = true ∨ c = '-' := by
  have hdash : (SetItem.single '-').test noCase c = true ↔ c = '-' := testRange_dash noCase c
  rw [test_set, read_append_dash hend, List.any_append, Bool.or_eq_true, ← test_set, List.any_cons,
    List.any_nil, Bool.or_false, hdash]

/-- The items in front of the last two are those of a text of their own. -/
theorem test_set_spelled {t : Text} {before after : List SetItem} (h : read t = before ++ after)
    (noCase : Bool) (c : Char) :
    (set (spelled before)).test noCase c = before.any (·.test noCase c) := by
  have hlegible := (spelled_read t).2
  rw [h] at hlegible
  rw [test_set, read_spelled hlegible.of_append]

/-- A last dash that ends a range from `lo` adds what is from there up to the dash, which is nothing
    if `lo` is behind the dash. Without the last dash `lo` and the dash before it are two characters
    of the set. -/
theorem test_set_dash_ends_range {t : Text} {before : List SetItem} {lo : Char}
    (h : read t = before ++ [SetItem.single lo, SetItem.single '-']) (noCase : Bool) (c : Char) :
    ((set t).test noCase c = true ↔ (set (spelled before)).test noCase c = true ∨
      (range lo lo).test noCase c = true ∨ c = '-') ∧
    ((set (t ++ ['-'])).test noCase c = true ↔
      (set (spelled before)).test noCase c = true ∨ lo ≤ c ∧ c ≤ '-') := by
  have hlo : (SetItem.single lo).test noCase c = (range lo lo).test noCase c := rfl
  have hdash : (SetItem.single '-').test noCase c = true ↔ c = '-' := testRange_dash noCase c
  have hrange : (SetItem.range lo '-').test noCase c = true ↔ lo ≤ c ∧ c ≤ '-' := by
    have hlow : '-'.toNat < 'A'.toNat := by decide
    rw [SetItem.test, bounds, testRange_of_low hlow, within, Bool.and_eq_true, decide_eq_true_eq,
      decide_eq_true_eq]
  constructor
  · rw [test_set, h, List.any_append, ← test_set_spelled h]
    simp only [List.any_cons, List.any_nil, Bool.or_false, Bool.or_eq_true, hlo, hdash]
  · rw [test_set, read_append_dash_of_open h, List.any_append, ← test_set_spelled h]
    simp only [List.any_cons, List.any_nil, Bool.or_false, Bool.or_eq_true, hrange]

/-- What a dash in front of a definition and one behind it do. The one in front is in the set,
    unless it begins a range without characters and is not in the rest. The one behind adds itself
    and nothing else to the set, unless the definition ends with a character and a dash that stand
    for themselves: with them it is a range, and the set has what is in that range instead of the
    two. -/
theorem set_dash_at_ends (t : Text) (noCase : Bool) :
    ((set ('-' :: t)).test noCase '-' = true ↔
      ∀ hi r, t = '-' :: hi :: r → '-' ≤ hi ∨ (set r).test noCase '-' = true) ∧
    ((∀ before lo, read t ≠ before ++ [SetItem.single lo, SetItem.single '-']) → ∀ c,
      ((set (t ++ ['-'])).test noCase c = true ↔ (set t).test noCase c = true ∨ c = '-')) ∧
    (∀ before lo, read t = before ++ [SetItem.single lo, SetItem.single '-'] → ∀ c,
      ((set t).test noCase c = true ↔ (set (spelled before)).test noCase c = true ∨
        (range lo lo).test noCase c = true ∨ c = '-') ∧
      ((set (t ++ ['-'])).test noCase c = true ↔
        (set (spelled before)).test noCase c = true ∨ lo ≤ c ∧ c ≤ '-')) :=
  ⟨test_set_dash_first t noCase, fun hend c => test_set_dash_last hend noCase c,
    fun _ _ h c => test_set_dash_ends_range h noCase c⟩

/-- The definition `a-z+-` with a dash behind it: the set has the comma between `+` and the dash. -/
theorem set_dash_at_ends_comma :
    read ['a', '-', 'z', '+', '-'] = [.range 'a' 'z'] ++ [.single '+', .single '-'] ∧
    (set ['a', '-', 'z', '+', '-']).test false ',' = false ∧
    (set ['a', '-', 'z', '+', '-', '-']).test false ',' = true := by
  have hread :
      read ['a', '-', 'z', '+', '-'] = [.range 'a' 'z'] ++ [.single '+', .single '-'] := rfl
  have hends := (set_dash_at_ends ['a', '-', 'z', '+', '-'] false).2.2 _ _ hread ','
  exact ⟨hread, by decide, hends.2.mpr (.inr (by decide))⟩

/-- In `a--` the last dash ends a range without characters, and in `--!` the first begins one: the
    dash is in neither set, though both have it at an end. In `+--` the last dash brings the comma
    with it. -/
theorem set_loses_dash :
    (set ['a', '-', '-']).test false '-' = false ∧ (set ['-', '-', '!']).test false '-' = false ∧
    (set ['+', '-']).test false ',' = false ∧ (set ['+', '-', '-']).test false ',' = true := by
  decide

end CharTest

end Peg
