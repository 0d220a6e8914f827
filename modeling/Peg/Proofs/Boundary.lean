/-
  Peg.Proofs.Boundary

  What a terminal takes at the front of a text ends on a character boundary of
  it. The bytes of words and symbols are counted character by character; numbers
  are made of characters of one byte each, so that counting characters counts
  bytes.
-/
import Peg.Terminal.Basic

namespace Peg

namespace Text

/-! ## Boundaries -/

theorem IsBoundary.cons {r : Text} {n : Nat} (c : Char) (h : IsBoundary r n) :
    IsBoundary (c :: r) (c.utf8Size + n) := by
  obtain ⟨before, after, rfl, rfl⟩ := h
  exact ⟨c :: before, after, rfl, rfl⟩

/-! ## Characters of one byte -/

/-- The first `n` characters of `t` take one byte each. -/
def Narrow (t : Text) (n : Nat) : Prop := n ≤ t.length ∧ ∀ c ∈ t.take n, c.utf8Size = 1

@[simp] theorem narrow_zero (t : Text) : Narrow t 0 := ⟨Nat.zero_le _, by simp⟩

theorem Narrow.cons {c : Char} {t : Text} {n : Nat} (hc : c.utf8Size = 1) (h : Narrow t n) :
    Narrow (c :: t) (n + 1) := by
  refine ⟨Nat.succ_le_succ h.1, fun d hd => ?_⟩
  rw [List.take_succ_cons] at hd
  obtain rfl | hd := List.mem_cons.mp hd
  · exact hc
  · exact h.2 d hd

theorem Narrow.tail {c : Char} {t : Text} {n : Nat} (h : Narrow (c :: t) (n + 1)) :
    c.utf8Size = 1 ∧ Narrow t n := by
  refine ⟨h.2 c (by simp), Nat.le_of_succ_le_succ h.1, fun d hd => h.2 d ?_⟩
  rw [List.take_succ_cons]
  exact List.mem_cons_of_mem _ hd

/-- After characters of one byte, characters and bytes are counted alike. -/
theorem Narrow.isBoundary_add {t : Text} {n m : Nat} (h : Narrow t n)
    (hm : IsBoundary (t.drop n) m) : IsBoundary t (n + m) := by
  -- one character of one byte at a time
  induction n generalizing t with
  | zero => simpa using hm
  | succ n ih =>
    cases t with
    | nil => exact absurd h.1 (by simp)
    | cons c t =>
      obtain ⟨hc, ht⟩ := h.tail
      have := (ih ht hm).cons c
      rw [hc] at this
      rwa [show n + 1 + m = 1 + (n + m) by omega]

theorem Narrow.isBoundary {t : Text} {n : Nat} (h : Narrow t n) : IsBoundary t n :=
  h.isBoundary_add (isBoundary_zero _)

theorem Narrow.add {t : Text} {n m : Nat} (h : Narrow t n) (hm : Narrow (t.drop n) m) :
    Narrow t (n + m) := by
  induction n generalizing t with
  | zero => simpa using hm
  | succ n ih =>
    cases t with
    | nil => exact absurd h.1 (by simp)
    | cons c t =>
      obtain ⟨hc, ht⟩ := h.tail
      have := (ih ht hm).cons hc
      rwa [show n + 1 + m = n + m + 1 by omega]

/-- Characters up to a character of the lower half take one byte. -/
theorem utf8Size_of_le {c : Char} (d : Char) (h : c ≤ d) (hd : d.toNat ≤ 127) : c.utf8Size = 1 :=
  Char.utf8Size_eq_one_iff.mpr (UInt32.le_iff_toNat_le.mpr (Nat.le_trans h hd))

theorem utf8Size_of_isDigit {c : Char} (h : c.isDigit = true) : c.utf8Size = 1 := by
  simp only [Char.isDigit, Bool.and_eq_true, decide_eq_true_eq] at h
  exact utf8Size_of_le '9' h.2 (by decide)

end Text

open Text

/-! ## Words -/

namespace Literal

theorem scan_isBoundary {noCase : Bool} {word t : Text} {n : Nat}
    (h : scan noCase word t = some n) : IsBoundary t n := by
  induction word generalizing t n with
  | nil =>
    cases h
    exact isBoundary_zero t
  | cons w ws ih =>
    cases t with
    | nil => cases h
    | cons c r =>
      rw [scan] at h
      split at h
      · obtain ⟨m, hm, rfl⟩ := Option.map_eq_some_iff.mp h
        exact (ih hm).cons c
      · cases h

theorem scanAscii_isBoundary {word t : Text} {n : Nat} (h : scanAscii word t = some n) :
    IsBoundary t n := by
  induction word generalizing t n with
  | nil =>
    cases h
    exact isBoundary_zero t
  | cons w ws ih =>
    cases t with
    | nil => cases h
    | cons c r =>
      rw [scanAscii] at h
      split at h
      · obtain ⟨m, hm, rfl⟩ := Option.map_eq_some_iff.mp h
        exact (ih hm).cons c
      · cases h

theorem scanBool_isBoundary {noCase : Bool} {t : Text} {n : Nat} {b : Bool}
    (h : scanBool noCase t = some (n, b)) : IsBoundary t n := by
  have word (w : Text) (m : Nat)
      (hm : (if noCase then scanAscii w t else scan false w t) = some m) : IsBoundary t m := by
    split at hm
    · exact scanAscii_isBoundary hm
    · exact scan_isBoundary hm
  simp only [scanBool] at h
  split at h
  · rename_i m hm
    cases h
    exact word _ _ hm
  · obtain ⟨m, hm, he⟩ := Option.map_eq_some_iff.mp h
    cases he
    exact word _ _ hm

end Literal

/-! ## Integers -/

namespace Integer

/-- Digits of every base are characters of one byte. -/
theorem utf8Size_of_digitValue? {radix d : Nat} {c : Char} (h : digitValue? radix c = some d) :
    c.utf8Size = 1 := by
  -- every range of digits ends in the lower half
  by_cases h9 : '0' ≤ c ∧ c ≤ '9'
  · exact utf8Size_of_le '9' h9.2 (by decide)
  by_cases hz : 'a' ≤ c ∧ c ≤ 'z'
  · exact utf8Size_of_le 'z' hz.2 (by decide)
  by_cases hZ : 'A' ≤ c ∧ c ≤ 'Z'
  · exact utf8Size_of_le 'Z' hZ.2 (by decide)
  simp [digitValue?, h9, hz, hZ] at h

theorem narrow_digitRun (radix : Nat) (limit : Option Nat) (t : Text) :
    Narrow t (digitRun radix limit t).length := by
  -- a run grows by a digit or stops, at its limit, at another character or at the end
  fun_induction digitRun radix limit t with
  | case1 => exact narrow_zero _
  | case2 => exact narrow_zero _
  | case3 limit c r hlimit d hd ih => exact ih.cons (utf8Size_of_digitValue? hd)
  | case4 => exact narrow_zero _

theorem narrow_scanDigits {n : Integer} {negative : Bool} {t : Text} {len : Nat} {v : Int}
    (h : n.scanDigits negative t = some (len, v)) : Narrow t len := by
  simp only [scanDigits] at h
  split at h
  · cases h
  · obtain ⟨w, -, he⟩ := Option.map_eq_some_iff.mp h
    cases he
    exact narrow_digitRun ..

theorem narrow_scan {n : Integer} {t : Text} {len : Nat} {v : Int}
    (h : n.scan t = some (len, v)) : Narrow t len := by
  unfold scan at h
  -- the digits come after either sign, or at once
  split at h
  · obtain ⟨⟨m, w⟩, hm, he⟩ := Option.map_eq_some_iff.mp h
    cases he
    exact (narrow_scanDigits hm).cons (by decide)
  · obtain ⟨⟨m, w⟩, hm, he⟩ := Option.map_eq_some_iff.mp h
    cases he
    exact (narrow_scanDigits hm).cons (by decide)
  · exact narrow_scanDigits h

end Integer

/-! ## Real numbers -/

namespace Real

theorem narrow_digitCount (t : Text) : Narrow t (digitCount t) := by
  rw [digitCount]
  induction t with
  | nil => exact narrow_zero _
  | cons c r ih =>
    rw [List.takeWhile_cons]
    split
    · rename_i hc
      exact ih.cons (utf8Size_of_isDigit hc)
    · exact narrow_zero _

theorem narrow_signCount (t : Text) : Narrow t (signCount t) := by
  unfold signCount
  split
  · exact (narrow_zero _).cons (by decide)
  · exact (narrow_zero _).cons (by decide)
  · exact narrow_zero _

theorem narrow_exponentLength (t : Text) : Narrow t (exponentLength t) := by
  unfold exponentLength
  split
  · rename_i c r
    split
    · rename_i hc
      have hc : c.utf8Size = 1 := by
        obtain rfl | rfl := hc <;> decide
      dsimp only
      split
      · exact narrow_zero _
      · have := ((narrow_signCount r).add (narrow_digitCount _)).cons hc
        rwa [show 1 + signCount r + digitCount (r.drop (signCount r))
          = signCount r + digitCount (r.drop (signCount r)) + 1 by omega]
    · exact narrow_zero _
  · exact narrow_zero _

theorem narrow_mantissaLength? {t : Text} {n : Nat} (h : mantissaLength? t = some n) :
    Narrow t n := by
  simp only [mantissaLength?] at h
  -- digits, then perhaps a point and more digits
  split at h
  · rename_i r hr
    split at h
    · cases h
    · cases h
      have hpoint : Narrow (t.drop (digitCount t)) (digitCount r + 1) := by
        rw [hr]
        exact (narrow_digitCount r).cons (by decide)
      have := (narrow_digitCount t).add hpoint
      rwa [show digitCount t + 1 + digitCount r = digitCount t + (digitCount r + 1) by omega]
  · split at h
    · cases h
    · cases h
      exact narrow_digitCount t

theorem scan_isBoundary {t : Text} {n : Nat} (h : scan t = some n) : IsBoundary t n := by
  simp only [scan] at h
  -- after the sign comes one of the fixed words, or a mantissa and an exponent
  split at h
  · rename_i m hm
    cases h
    obtain ⟨w, -, hw⟩ := List.exists_of_findSome?_eq_some hm
    exact (narrow_signCount t).isBoundary_add (Literal.scanAscii_isBoundary hw)
  · obtain ⟨m, hm, rfl⟩ := Option.map_eq_some_iff.mp h
    have hbody := (narrow_mantissaLength? hm).add (narrow_exponentLength _)
    have := ((narrow_signCount t).add hbody).isBoundary
    rwa [show signCount t + m + exponentLength ((t.drop (signCount t)).drop m)
      = signCount t + (m + exponentLength ((t.drop (signCount t)).drop m)) by omega]

end Real

/-! ## Symbols -/

namespace Trie

variable {α : Type}

/-- A word found further down ends on a boundary of the text that was left. -/
def FoundWithin (rest : Text) (consumed : Nat) (best found : Option (Nat × α)) : Prop :=
  found = best ∨ ∃ m v, found = some (consumed + m, v) ∧ IsBoundary rest m

theorem FoundWithin.cons {c : Char} {r : Text} {consumed : Nat} {best mid found : Option (Nat × α)}
    (h : FoundWithin (c :: r) consumed best mid)
    (h' : FoundWithin r (consumed + c.utf8Size) mid found) :
    FoundWithin (c :: r) consumed best found := by
  obtain rfl | ⟨m, v, rfl, hm⟩ := h'
  · exact h
  · exact .inr ⟨c.utf8Size + m, v, by rw [Nat.add_assoc], hm.cons c⟩

theorem foundWithin_here (rest : Text) (consumed : Nat) (best : Option (Nat × α))
    (value : Option α) :
    FoundWithin rest consumed best
      (match value with
      | some v => if best.all (fun b => b.1 ≤ consumed) then some (consumed, v) else best
      | none => best) := by
  split
  · split
    · exact .inr ⟨0, _, rfl, isBoundary_zero rest⟩
    · exact .inl rfl
  · exact .inl rfl

/-- A search that goes on below some of the siblings stays within the text. -/
theorem foldl_foundWithin {c : Char} {r : Text} {consumed : Nat} {best : Option (Nat × α)}
    (look : Char × Trie α → Bool) (find : Option (Nat × α) → Trie α → Option (Nat × α))
    (hfind : ∀ mid u, FoundWithin r (consumed + c.utf8Size) mid (find mid u))
    (siblings : List (Char × Trie α)) (mid : Option (Nat × α))
    (h : FoundWithin (c :: r) consumed best mid) :
    FoundWithin (c :: r) consumed best
      (siblings.foldl (fun mid s => if look s then find mid s.2 else mid) mid) := by
  -- what has been found so far is carried from sibling to sibling
  induction siblings generalizing mid with
  | nil => exact h
  | cons s siblings ih =>
    rw [List.foldl_cons]
    apply ih
    split
    · exact h.cons (hfind mid s.2)
    · exact h

theorem foundWithin_below {c : Char} {r : Text} {consumed : Nat} {best mid : Option (Nat × α)}
    (child : Option (Trie α)) (find : Option (Nat × α) → Trie α → Option (Nat × α))
    (hfind : ∀ mid u, FoundWithin r (consumed + c.utf8Size) mid (find mid u))
    (h : FoundWithin (c :: r) consumed best mid) :
    FoundWithin (c :: r) consumed best
      (match child with
      | some u => find mid u
      | none => mid) := by
  split
  · exact h.cons (hfind mid _)
  · exact h

theorem longest_foundWithin (noCase : Bool) (rest : Text) (consumed : Nat) (t : Trie α)
    (best : Option (Nat × α)) :
    FoundWithin rest consumed best (longest noCase rest consumed t best) := by
  induction rest generalizing consumed t best with
  | nil =>
    rw [longest]
    exact foundWithin_here [] consumed best t.value
  | cons c r ih =>
    rw [longest]
    have below := foundWithin_below (child? c t.children)
      (fun mid u => longest noCase r (consumed + c.utf8Size) u mid) (fun mid u => ih _ u mid)
      (foundWithin_here (c :: r) consumed best t.value)
    -- without case the search goes on below every child that agrees, the exact one first
    dsimp only
    split
    · exact foldl_foundWithin (fun s => s.1 != c && lowerCase s.1 == lowerCase c)
        (fun mid u => longest noCase r (consumed + c.utf8Size) u mid) (fun mid u => ih _ u mid)
        t.children _ below
    · exact below

end Trie

theorem Symbols.scan_isBoundary {α : Type} {s : Symbols α} {noCase : Bool} {t : Text} {n : Nat}
    {v : α} (h : s.scan noCase t = some (n, v)) : IsBoundary t n := by
  obtain he | ⟨m, w, he, hm⟩ := Trie.longest_foundWithin noCase t 0 s.root none
  · rw [scan, he] at h
    cases h
  · rw [scan, he] at h
    cases h
    simpa using hm

/-! ## Terminals -/

theorem Terminal.scanEol_isBoundary {t : Text} {n : Nat} (h : scanEol t = some n) :
    IsBoundary t n := by
  unfold scanEol at h
  split at h <;> cases h
  · exact ((isBoundary_zero _).cons '\n').cons '\r'
  · exact (isBoundary_zero _).cons '\n'
  · exact (isBoundary_zero _).cons '\r'
  · exact isBoundary_zero _

theorem Terminal.scanReal_isBoundary {rest : Text} {value : Real → Value} {n : Nat} {v : Value}
    (h : scan.scanReal rest value = some (n, v)) : IsBoundary rest n := by
  simp only [scan.scanReal, Option.bind_eq_bind, Option.bind_eq_some_iff] at h
  obtain ⟨m, hm, x, -, he⟩ := h
  cases he
  exact Real.scan_isBoundary hm

/-- A terminal for single characters takes one. -/
theorem Terminal.scan_pos {t : Terminal} {noCase : Bool} {rest : Text} {n : Nat} {v : Value}
    (ht : (∃ c, t = .char c) ∨ ∃ a, t = .lit a) (h : t.scan noCase rest = some (n, v)) :
    0 < n := by
  obtain ⟨c, rfl⟩ | ⟨a, rfl⟩ := ht
  all_goals
    simp only [scan] at h
    split at h
    · split at h <;> cases h
      exact Char.utf8Size_pos _
    · cases h

theorem Terminal.scan_isBoundary {t : Terminal} {noCase : Bool} {rest : Text} {n : Nat} {v : Value}
    (h : t.scan noCase rest = some (n, v)) : IsBoundary rest n := by
  cases t with
  | char t =>
    simp only [scan] at h
    split at h
    · split at h <;> cases h
      exact (isBoundary_zero _).cons _
    · cases h
  | lit a =>
    simp only [scan] at h
    split at h
    · split at h <;> cases h
      exact (isBoundary_zero _).cons _
    · cases h
  | word w =>
    obtain ⟨m, hm, he⟩ := Option.map_eq_some_iff.mp h
    cases he
    exact Literal.scan_isBoundary hm
  | string w =>
    obtain ⟨m, hm, he⟩ := Option.map_eq_some_iff.mp h
    cases he
    exact Literal.scan_isBoundary hm
  | integer k =>
    obtain ⟨⟨m, i⟩, hm, he⟩ := Option.map_eq_some_iff.mp h
    cases he
    exact (Integer.narrow_scan hm).isBoundary
  | double => exact scanReal_isBoundary h
  | single => exact scanReal_isBoundary h
  | bool =>
    obtain ⟨⟨m, b⟩, hm, he⟩ := Option.map_eq_some_iff.mp h
    cases he
    exact Literal.scanBool_isBoundary hm
  | eoi =>
    simp only [scan] at h
    split at h <;> cases h
    exact isBoundary_zero rest
  | eol =>
    obtain ⟨m, hm, he⟩ := Option.map_eq_some_iff.mp h
    cases he
    exact scanEol_isBoundary hm
  | symbols ty table => exact Symbols.scan_isBoundary h

end Peg
