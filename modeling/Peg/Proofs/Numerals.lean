/-
  Peg.Proofs.Numerals

  How real numbers are written, and what scanning and reading make of a text.
  A scan that finds a number has a numeral at the front of the text. The other
  way round, a decimal is found whole, whichever sign stands before it, as long
  as what follows could not be a part of it, and it is read as one number whose
  sign is the one that was written.
-/
import Mathlib
import Peg.Proofs.Boundary

namespace Peg

namespace Text

/-! ## Fronts of texts -/

/-- The text does not start with a character that passes the test. -/
def Avoids (p : Char → Bool) (t : Text) : Prop := ∀ c ∈ t.head?, p c = false

variable {p q : Char → Bool}

@[simp] theorem avoids_nil : Avoids p [] := by simp [Avoids]

@[simp] theorem avoids_cons {c : Char} {t : Text} : Avoids p (c :: t) ↔ p c = false := by
  simp [Avoids]

theorem Avoids.mono {t : Text} (h : Avoids p t) (hq : ∀ c, q c = true → p c = true) :
    Avoids q t := by
  cases t with
  | nil => exact avoids_nil
  | cons c r =>
    rw [avoids_cons] at h ⊢
    exact Bool.eq_false_iff.mpr fun hc => Bool.eq_false_iff.mp h (hq c hc)

theorem avoids_dropWhile (p : Char → Bool) (t : Text) : Avoids p (t.dropWhile p) := by
  induction t with
  | nil => exact avoids_nil
  | cons c r ih =>
    rw [List.dropWhile_cons]
    split
    · exact ih
    · rename_i hc
      simpa using hc

/-- A run of characters ends where the text after it starts with another one. -/
theorem takeWhile_append_of_avoids {d r : Text} (hd : ∀ c ∈ d, p c = true) (hr : Avoids p r) :
    (d ++ r).takeWhile p = d := by
  rw [List.takeWhile_append_of_pos hd]
  cases r with
  | nil => simp
  | cons c r => simp [avoids_cons.mp hr]

theorem dropWhile_append_of_avoids {d r : Text} (hd : ∀ c ∈ d, p c = true) (hr : Avoids p r) :
    (d ++ r).dropWhile p = r := by
  rw [List.dropWhile_append_of_pos hd]
  cases r with
  | nil => simp
  | cons c r => simp [avoids_cons.mp hr]

theorem Narrow.byteLength_take {t : Text} {n : Nat} (h : Narrow t n) :
    byteLength (t.take n) = n := by
  induction n generalizing t with
  | zero => simp
  | succ n ih =>
    cases t with
    | nil => exact absurd h.1 (by simp)
    | cons c t =>
      obtain ⟨hc, ht⟩ := h.tail
      rw [List.take_succ_cons, byteLength_cons, hc, ih ht, Nat.add_comm]

end Text

open Text

namespace Real

/-! ## Numerals -/

/-- Nothing, or one sign. -/
def IsSign (s : Text) : Prop := s = [] ∨ s = ['+'] ∨ s = ['-']

/-- Decimal digits and nothing else. -/
def AreDigits (t : Text) : Prop := ∀ c ∈ t, c.isDigit = true

/-- Digits, or digits around a point, at least one digit among them. -/
def IsMantissa (m : Text) : Prop :=
  AreDigits m ∧ m ≠ [] ∨
    ∃ whole part, m = whole ++ '.' :: part ∧ AreDigits whole ∧ AreDigits part ∧
      ¬ (whole = [] ∧ part = [])

/-- Nothing, or a letter, perhaps a sign, and digits. -/
def IsExponent (x : Text) : Prop :=
  x = [] ∨ ∃ e s d, x = e :: (s ++ d) ∧ (e = 'e' ∨ e = 'E') ∧ IsSign s ∧ AreDigits d ∧ d ≠ []

/-- A decimal number without a sign. -/
def IsDecimal (t : Text) : Prop := ∃ m x, t = m ++ x ∧ IsMantissa m ∧ IsExponent x

/-- A word for a number, in any case. -/
def IsWord (t : Text) : Prop := t.map Char.toLower ∈ words.map String.toList

/-- A number as it can be written: perhaps a sign, then a decimal number or a word. -/
def IsNumeral (t : Text) : Prop := ∃ s b, t = s ++ b ∧ IsSign s ∧ (IsDecimal b ∨ IsWord b)

/-! ## What a scan takes is a numeral -/

theorem split_digits (t : Text) :
    t.take (digitCount t) = t.takeWhile Char.isDigit ∧
      t.drop (digitCount t) = t.dropWhile Char.isDigit :=
  List.append_inj (by rw [List.take_append_drop, List.takeWhile_append_dropWhile])
    (by rw [List.length_take, digitCount, Nat.min_eq_left (List.takeWhile_prefix _).length_le])

theorem areDigits_takeWhile (t : Text) : AreDigits (t.takeWhile Char.isDigit) :=
  List.all_eq_true.mp List.all_takeWhile

theorem areDigits_take (t : Text) : AreDigits (t.take (digitCount t)) := by
  rw [(split_digits t).1]
  exact areDigits_takeWhile t

theorem take_digitCount_eq_nil {t : Text} : t.take (digitCount t) = [] ↔ digitCount t = 0 := by
  rw [(split_digits t).1, digitCount, List.length_eq_zero_iff]

theorem isSign_take (t : Text) : IsSign (t.take (signCount t)) := by
  unfold signCount
  split
  · exact .inr (.inl rfl)
  · exact .inr (.inr rfl)
  · exact .inl rfl

theorem isExponent_take (t : Text) : IsExponent (t.take (exponentLength t)) := by
  unfold exponentLength
  split
  · rename_i c r
    dsimp only
    split
    · rename_i hc
      split
      · exact .inl rfl
      · rename_i hd
        refine .inr ⟨c, r.take (signCount r),
          (r.drop (signCount r)).take (digitCount (r.drop (signCount r))), ?_, hc, isSign_take r,
          areDigits_take _, fun h => hd (take_digitCount_eq_nil.mp h)⟩
        rw [Nat.add_assoc, Nat.add_comm 1, List.take_succ_cons, List.take_add]
    · exact .inl rfl
  · exact .inl rfl

theorem isMantissa_take {t : Text} {n : Nat} (h : mantissaLength? t = some n) :
    IsMantissa (t.take n) := by
  simp only [mantissaLength?] at h
  split at h
  · rename_i r hr
    split at h
    · cases h
    · rename_i hsome
      cases h
      refine .inr ⟨t.take (digitCount t), r.take (digitCount r), ?_, areDigits_take t,
        areDigits_take r, fun hnone => hsome ?_⟩
      · rw [Nat.add_assoc, List.take_add, hr, Nat.add_comm 1, List.take_succ_cons]
      · exact ⟨take_digitCount_eq_nil.mp hnone.1, take_digitCount_eq_nil.mp hnone.2⟩
  · split at h
    · cases h
    · rename_i hsome
      cases h
      exact .inl ⟨areDigits_take t, fun hnone => hsome (take_digitCount_eq_nil.mp hnone)⟩

/-- A character whose lower case is a letter of ASCII takes one byte. -/
theorem utf8Size_of_toLower {c : Char} (h : c.toLower.toNat ≤ 127) : c.utf8Size = 1 := by
  by_cases hup : c.val ≥ 'A'.val ∧ c.val ≤ 'Z'.val
  · exact utf8Size_of_le 'Z' hup.2 (by decide)
  · rw [Char.toLower, dif_neg hup] at h
    exact utf8Size_of_le '\x7f' (UInt32.le_iff_toNat_le.mpr h) (by decide)

/-- The front of a text that agrees with a word is that word in some case. -/
theorem scanAscii_take {w t : Text} {n : Nat} (hw : ∀ c ∈ w, c.toLower = c ∧ c.toNat ≤ 127)
    (h : Literal.scanAscii w t = some n) : Narrow t n ∧ (t.take n).map Char.toLower = w := by
  induction w generalizing t n with
  | nil =>
    cases h
    exact ⟨narrow_zero t, rfl⟩
  | cons a w ih =>
    cases t with
    | nil => cases h
    | cons c r =>
      rw [Literal.scanAscii] at h
      split at h
      · rename_i hc
        obtain ⟨m, hm, rfl⟩ := Option.map_eq_some_iff.mp h
        obtain ⟨ha, hascii⟩ := hw a List.mem_cons_self
        obtain ⟨hn, he⟩ := ih (fun d hd => hw d (List.mem_cons_of_mem _ hd)) hm
        have hsize : c.utf8Size = 1 := utf8Size_of_toLower (by rw [hc, ha]; exact hascii)
        rw [hsize, Nat.add_comm]
        exact ⟨hn.cons hsize, by rw [List.take_succ_cons, List.map_cons, he, hc, ha]⟩
      · cases h

theorem word_ascii : ∀ w ∈ words, ∀ c ∈ w.toList, c.toLower = c ∧ c.toNat ≤ 127 := by
  simp [words]

theorem word_lower : ∀ w ∈ words, ∀ c ∈ w.toList, c.toLower = c ∧ c.isLower = true := by
  simp [words]

/-- What a scan finds is a numeral of that many characters of one byte. -/
theorem isNumeral_take {t : Text} {n : Nat} (h : scan t = some n) :
    Narrow t n ∧ IsNumeral (t.take n) := by
  simp only [scan] at h
  split at h
  · rename_i m hm
    cases h
    obtain ⟨w, hmem, hw⟩ := List.exists_of_findSome?_eq_some hm
    obtain ⟨hn, he⟩ := scanAscii_take (word_ascii w hmem) hw
    refine ⟨(narrow_signCount t).add hn, _, _, List.take_add, isSign_take t, .inr ?_⟩
    rw [IsWord, he]
    exact List.mem_map_of_mem hmem
  · obtain ⟨m, hm, rfl⟩ := Option.map_eq_some_iff.mp h
    rw [Nat.add_assoc]
    exact ⟨(narrow_signCount t).add ((narrow_mantissaLength? hm).add (narrow_exponentLength _)),
      _, _, List.take_add, isSign_take t,
      .inl ⟨_, _, List.take_add, isMantissa_take hm, isExponent_take _⟩⟩

/-! ## A decimal is found whole -/

/-- A character that a number in front of it could go on with. -/
def goesOn (c : Char) : Bool := c.isAlphanum || c == '.'

/-- A character that the digits of a number start with. -/
def isFigure (c : Char) : Bool := c.isDigit || c == '.'

theorem goesOn_of_isFigure {c : Char} (h : isFigure c = true) : goesOn c = true := by
  simp only [isFigure, goesOn, Char.isAlphanum, Bool.or_eq_true] at h ⊢
  exact h.imp .inr id

theorem isFigure_of_isDigit {c : Char} (h : c.isDigit = true) : isFigure c = true := by
  simp [isFigure, h]

/-- Letters are no figures. -/
theorem isFigure_of_isAlpha {c : Char} (h : c.isAlpha = true) : isFigure c = false := by
  refine Bool.eq_false_iff.mpr fun hfig => ?_
  simp only [isFigure, Char.isAlpha, Char.isUpper, Char.isLower, Char.isDigit, Bool.or_eq_true,
    Bool.and_eq_true, decide_eq_true_eq, beq_iff_eq, UInt32.le_iff_toNat_le, ge_iff_le] at h hfig
  have : 'A'.val.toNat = 65 := rfl
  have : 'a'.val.toNat = 97 := rfl
  have : '9'.val.toNat = 57 := rfl
  obtain ⟨-, h9⟩ | rfl := hfig
  · omega
  · exact absurd h (by decide)

theorem IsMantissa.front {m : Text} (h : IsMantissa m) :
    ∃ c r, m = c :: r ∧ isFigure c = true := by
  obtain ⟨hm, hne⟩ | ⟨whole, part, rfl, hwhole, -⟩ := h
  · obtain ⟨c, r, rfl⟩ := List.exists_cons_of_ne_nil hne
    exact ⟨c, r, rfl, isFigure_of_isDigit (hm c List.mem_cons_self)⟩
  · cases whole with
    | nil => exact ⟨'.', part, rfl, rfl⟩
    | cons c r => exact ⟨c, _, rfl, isFigure_of_isDigit (hwhole c List.mem_cons_self)⟩

theorem IsDecimal.front {d : Text} (h : IsDecimal d) : ∃ c r, d = c :: r ∧ isFigure c = true := by
  obtain ⟨m, x, rfl, hm, -⟩ := h
  obtain ⟨c, r, rfl, hc⟩ := hm.front
  exact ⟨c, r ++ x, rfl, hc⟩

/-- Digits and the point are no letters. -/
theorem toLower_of_isFigure {c : Char} (h : isFigure c = true) : c.toLower = c := by
  rw [Char.toLower, dif_neg]
  rintro ⟨hlow, -⟩
  simp only [isFigure, Char.isDigit, Bool.or_eq_true, Bool.and_eq_true, decide_eq_true_eq,
    beq_iff_eq] at h
  obtain ⟨-, h9⟩ | rfl := h
  · exact absurd (UInt32.le_trans hlow h9) (by decide)
  · exact absurd hlow (by decide)

theorem digitCount_append {d r : Text} (hd : AreDigits d) (hr : Avoids Char.isDigit r) :
    digitCount (d ++ r) = d.length := by
  rw [digitCount, takeWhile_append_of_avoids hd hr]

theorem signCount_append {s b : Text} (hs : IsSign s)
    (hb : Avoids (fun c => c == '+' || c == '-') b) : signCount (s ++ b) = s.length := by
  obtain rfl | rfl | rfl := hs
  · rw [List.nil_append]
    unfold signCount
    split <;> simp_all
  · rfl
  · rfl

/-- Digits and points are no signs. -/
theorem signCount_figures {s b : Text} (hs : IsSign s) {c : Char} {r : Text} (hb : b = c :: r)
    (hc : isFigure c = true) : signCount (s ++ b) = s.length := by
  subst hb
  refine signCount_append hs (avoids_cons.mpr ?_)
  refine Bool.eq_false_iff.mpr fun h => ?_
  simp only [Bool.or_eq_true, beq_iff_eq] at h
  obtain rfl | rfl := h <;> exact absurd hc (by decide)

/-- The exponent of a decimal is found whole. -/
theorem exponentLength_append {x r : Text} (hx : IsExponent x) (hr : Avoids goesOn r) :
    exponentLength (x ++ r) = x.length := by
  obtain rfl | ⟨e, s, d, rfl, he, hs, hd, hne⟩ := hx
  · rw [List.nil_append]
    cases r with
    | nil => rfl
    | cons c r =>
      rw [exponentLength, if_neg]
      · rfl
      · rintro (rfl | rfl) <;> exact absurd (avoids_cons.mp hr) (by decide)
  · obtain ⟨c, d', rfl⟩ := List.exists_cons_of_ne_nil hne
    have hc := isFigure_of_isDigit (hd c List.mem_cons_self)
    have hdigits : digitCount (c :: d' ++ r) = (c :: d').length :=
      digitCount_append hd (hr.mono fun _ h => goesOn_of_isFigure (isFigure_of_isDigit h))
    simp only [List.cons_append, List.append_assoc] at hdigits ⊢
    rw [exponentLength, if_pos he]
    dsimp only
    rw [signCount_figures hs rfl hc, List.drop_left, hdigits, if_neg (by simp)]
    simp only [List.length_cons, List.length_append]
    omega

/-- The mantissa of a decimal is found whole. -/
theorem mantissaLength?_append {m r : Text} (hm : IsMantissa m) (hr : Avoids isFigure r) :
    mantissaLength? (m ++ r) = some m.length := by
  have hdigit : Avoids Char.isDigit r := hr.mono fun _ => isFigure_of_isDigit
  obtain ⟨hm, hne⟩ | ⟨whole, part, rfl, hwhole, hpart, hne⟩ := hm
  · rw [mantissaLength?, digitCount_append hm hdigit, List.drop_left]
    split
    · exact absurd (avoids_cons.mp hr) (by decide)
    · rw [if_neg (by simpa using hne)]
  · have hpoint : Avoids Char.isDigit ('.' :: (part ++ r)) := avoids_cons.mpr (by decide)
    rw [List.append_assoc, List.cons_append, mantissaLength?,
      digitCount_append hwhole hpoint, List.drop_left]
    split
    · rename_i r' h
      obtain rfl := (List.cons.inj h).2
      rw [digitCount_append hpart hdigit, if_neg (by simpa using hne)]
      simp only [List.length_append, List.length_cons]
      exact congrArg some (by omega)
    · rename_i hno
      exact absurd rfl (hno _)

theorem IsExponent.avoids_isFigure {x r : Text} (hx : IsExponent x)
    (hr : x = [] → Avoids isFigure r) : Avoids isFigure (x ++ r) := by
  obtain rfl | ⟨e, s, d, rfl, rfl | rfl, -⟩ := hx
  · exact hr rfl
  · exact avoids_cons.mpr (by decide)
  · exact avoids_cons.mpr (by decide)

/-- Words start with a small letter. -/
theorem word_front {w : String} (h : w ∈ words) :
    ∃ a v, w.toList = a :: v ∧ a.toLower = a ∧ isFigure a = false := by
  simp only [words, List.mem_cons, List.not_mem_nil, or_false] at h
  obtain rfl | rfl | rfl := h
  · exact ⟨'i', "nfinity".toList, rfl, by decide, by decide⟩
  · exact ⟨'i', "nf".toList, rfl, by decide, by decide⟩
  · exact ⟨'n', "an".toList, rfl, by decide, by decide⟩

theorem toLower_ne_of_isFigure {c a : Char} (hc : isFigure c = true) (ha : isFigure a = false) :
    c.toLower ≠ a := by
  rw [toLower_of_isFigure hc]
  rintro rfl
  rw [hc] at ha
  cases ha

/-- No word stands where digits or a point do. -/
theorem scanAscii_figures {w : String} (hw : w ∈ words) {c : Char} (hc : isFigure c = true)
    (r : Text) : Literal.scanAscii w.toList (c :: r) = none := by
  obtain ⟨a, v, hv, ha, hfig⟩ := word_front hw
  rw [hv, Literal.scanAscii, if_neg]
  rw [ha]
  exact toLower_ne_of_isFigure hc hfig

/-- Where a decimal stands behind a sign, a scan goes by its digits, and no word is in the way. -/
theorem scan_decimal {s d : Text} (hs : IsSign s) (hd : IsDecimal d) (r : Text) :
    scan (s ++ (d ++ r)) = (mantissaLength? (d ++ r)).map fun n =>
      s.length + n + exponentLength ((d ++ r).drop n) := by
  obtain ⟨c, d', rfl, hc⟩ := hd.front
  have hsign : signCount (s ++ (c :: d' ++ r)) = s.length :=
    signCount_figures hs (List.cons_append ..) hc
  have hwords : words.findSome? (fun w => Literal.scanAscii w.toList (c :: d' ++ r)) = none :=
    List.findSome?_eq_none_iff.mpr fun w hw => scanAscii_figures hw hc _
  rw [scan, hsign, List.drop_left, hwords]

/-- A decimal is found whole behind a sign, before what could not be a part of it. -/
theorem scan_append {s d r : Text} (hs : IsSign s) (hd : IsDecimal d) (hr : Avoids goesOn r) :
    scan (s ++ (d ++ r)) = some (s ++ d).length := by
  rw [scan_decimal hs hd]
  obtain ⟨m, x, rfl, hm, hx⟩ := hd
  have hfig : Avoids isFigure (x ++ r) :=
    hx.avoids_isFigure fun _ => hr.mono fun _ => goesOn_of_isFigure
  rw [List.append_assoc, mantissaLength?_append hm hfig]
  simp only [Option.map_some, List.drop_left, exponentLength_append hx hr, List.length_append,
    Nat.add_assoc]

/-- No number stands before a character that numbers do not start with. -/
theorem scan_eq_none {t : Text} (hfig : Avoids isFigure (t.drop (signCount t)))
    (hword : ∀ w ∈ words, Literal.scanAscii w.toList (t.drop (signCount t)) = none) :
    scan t = none := by
  have hmantissa : mantissaLength? (t.drop (signCount t)) = none := by
    have hdigit : digitCount (t.drop (signCount t)) = 0 := by
      rw [← List.nil_append (t.drop (signCount t)),
        digitCount_append (by simp [AreDigits]) (hfig.mono fun _ => isFigure_of_isDigit)]
      rfl
    rw [mantissaLength?, hdigit, List.drop_zero]
    split
    · rename_i h
      rw [h] at hfig
      exact absurd (avoids_cons.mp hfig) (by decide)
    · rfl
  rw [scan, List.findSome?_eq_none_iff.mpr hword, hmantissa]
  rfl

/-! ## A decimal is read as a number -/

theorem readExponent?_isSome {x : Text} (hx : IsExponent x) : (readExponent? x).isSome := by
  obtain rfl | ⟨e, s, d, rfl, he, hs, hd, hne⟩ := hx
  · rfl
  · obtain ⟨c, d', rfl⟩ := List.exists_cons_of_ne_nil hne
    have hc := isFigure_of_isDigit (hd c List.mem_cons_self)
    rw [readExponent?, signCount_figures hs rfl hc, List.drop_left,
      if_pos ⟨he, hne, List.all_eq_true.mpr hd⟩]
    rfl

theorem readDecimal?_isSome {d : Text} (h : IsDecimal d) : (readDecimal? d).isSome := by
  obtain ⟨m, x, rfl, hm, hx⟩ := h
  have hfig : Avoids isFigure x := by simpa using hx.avoids_isFigure fun _ => avoids_nil
  have hdigit : Avoids Char.isDigit x := hfig.mono fun _ => isFigure_of_isDigit
  obtain ⟨hm, hne⟩ | ⟨whole, part, rfl, hwhole, hpart, hne⟩ := hm
  · rw [readDecimal?, takeWhile_append_of_avoids hm hdigit, dropWhile_append_of_avoids hm hdigit]
    split
    · exact absurd (avoids_cons.mp hfig) (by decide)
    · rw [if_neg hne, Option.isSome_map]
      exact readExponent?_isSome hx
  · have hpoint : Avoids Char.isDigit ('.' :: (part ++ x)) := avoids_cons.mpr (by decide)
    rw [List.append_assoc, List.cons_append, readDecimal?,
      takeWhile_append_of_avoids hwhole hpoint, dropWhile_append_of_avoids hwhole hpoint]
    split
    · rename_i r' h
      obtain rfl := (List.cons.inj h).2
      rw [takeWhile_append_of_avoids hpart hdigit, dropWhile_append_of_avoids hpart hdigit,
        if_neg hne, Option.isSome_map]
      exact readExponent?_isSome hx
    · rename_i hno
      exact absurd rfl (hno _)

/-- A decimal behind a sign is read as the decimal alone is, but for the sign. -/
theorem read?_append {s d : Text} (hs : IsSign s) (hd : IsDecimal d) :
    read? (s ++ d) = (readDecimal? d).map fun k => ⟨s == ['-'], .finite k⟩ := by
  obtain ⟨c, d', rfl, hc⟩ := hd.front
  have hnot : ∀ w ∈ words, (c :: d').map Char.toLower ≠ w.toList := by
    intro w hw he
    obtain ⟨a, v, hv, -, hfig⟩ := word_front hw
    rw [hv, List.map_cons] at he
    exact toLower_ne_of_isFigure hc hfig (List.cons.inj he).1
  have hsign : ((s ++ c :: d').head? == some '-') = (s == ['-']) := by
    obtain rfl | rfl | rfl := hs
    · have : c ≠ '-' := by
        rintro rfl
        exact absurd hc (by decide)
      simpa using this
    · rfl
    · rfl
  rw [read?, signCount_figures hs rfl hc, List.drop_left, hsign,
    if_neg (not_or.mpr ⟨hnot "inf" (by decide), hnot "infinity" (by decide)⟩),
    if_neg (hnot "nan" (by decide))]

/-- Words do not start with a sign. -/
theorem IsWord.front {b : Text} (h : IsWord b) :
    ∃ c r, b = c :: r ∧ (c == '+' || c == '-') = false := by
  cases b with
  | nil => exact absurd h (by simp [IsWord, words])
  | cons c r =>
    refine ⟨c, r, rfl, Bool.eq_false_iff.mpr fun hmark => ?_⟩
    simp only [Bool.or_eq_true, beq_iff_eq] at hmark
    obtain rfl | rfl := hmark <;> exact absurd h (by simp [IsWord, words])

theorem signCount_word {s b : Text} (hs : IsSign s) (hb : IsWord b) (r : Text) :
    signCount (s ++ (b ++ r)) = s.length := by
  obtain ⟨c, b', rfl, hc⟩ := hb.front
  exact signCount_append hs (avoids_cons.mpr hc)

/-- A word behind a sign is read. -/
theorem read?_word {s b : Text} (hs : IsSign s) (hb : IsWord b) : (read? (s ++ b)).isSome := by
  have hsign : signCount (s ++ b) = s.length := by simpa using signCount_word hs hb []
  simp only [read?, hsign, List.drop_left]
  simp only [IsWord, words, List.map_cons, List.map_nil, List.mem_cons, List.not_mem_nil,
    or_false] at hb
  obtain h | h | h := hb
  · rw [if_pos (.inr h)]
    rfl
  · rw [if_pos (.inl h)]
    rfl
  · rw [h, if_neg (by decide), if_pos rfl]
    rfl

/-- What can be written can be read. -/
theorem IsNumeral.read?_isSome {t : Text} (h : IsNumeral t) : (read? t).isSome := by
  obtain ⟨s, b, rfl, hs, hb | hb⟩ := h
  · rw [read?_append hs hb, Option.isSome_map]
    exact readDecimal?_isSome hb
  · exact read?_word hs hb

/-- A terminal takes the number that a scan finds, read as a whole. -/
theorem scanReal_of_scan {t : Text} {n : Nat} (h : scan t = some n) :
    ∃ p after x, t = p ++ after ∧ n = byteLength p ∧ read? p = some x ∧
      ∀ value, Terminal.scan.scanReal t value = some (n, value x) := by
  obtain ⟨hnarrow, hnumeral⟩ := isNumeral_take h
  obtain ⟨x, hx⟩ := Option.isSome_iff_exists.mp hnumeral.read?_isSome
  refine ⟨t.take n, t.drop n, x, (List.take_append_drop n t).symm, hnarrow.byteLength_take.symm,
    hx, fun value => ?_⟩
  simp [Terminal.scan.scanReal, h, hx]

theorem scanReal_of_none {t : Text} (h : scan t = none) (value : Real → Value) :
    Terminal.scan.scanReal t value = none := by
  simp [Terminal.scan.scanReal, h]

/-! ## Words in front of a text -/

/-- The text starts, in any case, with a word for a number. -/
def LooksNumeric (t : Text) : Prop :=
  "inf".toList <+: t.map Char.toLower ∨ "nan".toList <+: t.map Char.toLower

/-- A character whose lower case is a small letter is a letter. -/
theorem isAlphanum_of_toLower {c : Char} (h : c.toLower.isLower = true) :
    c.isAlphanum = true := by
  by_cases hup : c.val ≥ 'A'.val ∧ c.val ≤ 'Z'.val
  · have : c.isUpper = true := by
      simp only [Char.isUpper, decide_eq_true_eq]
      exact hup
    simp [Char.isAlphanum, Char.isAlpha, this]
  · rw [Char.toLower, dif_neg hup] at h
    simp [Char.isAlphanum, Char.isAlpha, h]

/-- A word at the front of a name does not reach beyond the name. -/
theorem isPrefix_of_scanAscii {w s r : Text} {n : Nat}
    (hw : ∀ c ∈ w, c.toLower = c ∧ c.isLower = true) (hr : Avoids Char.isAlphanum r)
    (h : Literal.scanAscii w (s ++ r) = some n) : w <+: s.map Char.toLower := by
  induction w generalizing s n with
  | nil => exact List.nil_prefix
  | cons a w ih =>
    obtain ⟨ha, hlow⟩ := hw a List.mem_cons_self
    cases s with
    | nil =>
      cases r with
      | nil => cases h
      | cons c r =>
        -- the text after the name has no letter to offer
        rw [List.nil_append, Literal.scanAscii] at h
        split at h
        · rename_i hc
          have hletter : c.isAlphanum = true := isAlphanum_of_toLower (by rw [hc, ha]; exact hlow)
          rw [avoids_cons.mp hr] at hletter
          cases hletter
        · cases h
    | cons c s =>
      rw [List.cons_append, Literal.scanAscii] at h
      split at h
      · rename_i hc
        obtain ⟨m, hm, -⟩ := Option.map_eq_some_iff.mp h
        rw [List.map_cons, hc, ha]
        exact List.cons_prefix_cons.mpr
          ⟨rfl, ih (fun d hd => hw d (List.mem_cons_of_mem _ hd)) hm⟩
      · cases h

theorem scanAscii_of_not_looksNumeric {s r : Text} (hs : ¬ LooksNumeric s)
    (hr : Avoids Char.isAlphanum r) {w : String} (hw : w ∈ words) :
    Literal.scanAscii w.toList (s ++ r) = none := by
  refine Option.eq_none_iff_forall_ne_some.mpr fun n h => hs ?_
  have hpre := isPrefix_of_scanAscii (word_lower w hw) hr h
  simp only [words, List.mem_cons, List.not_mem_nil, or_false] at hw
  obtain rfl | rfl | rfl := hw
  · exact .inl ((List.prefix_append "inf".toList "inity".toList).trans hpre)
  · exact .inl hpre
  · exact .inr hpre

/-- No number stands before a name that does not start like a word for one. -/
theorem scan_eq_none_of_not_looksNumeric {t s r : Text} (ht : t.drop (signCount t) = s ++ r)
    (hfig : Avoids isFigure (s ++ r)) (hs : ¬ LooksNumeric s) (hr : Avoids Char.isAlphanum r) :
    scan t = none := by
  refine scan_eq_none ?_ fun w hw => ?_
  · rw [ht]
    exact hfig
  · rw [ht]
    exact scanAscii_of_not_looksNumeric hs hr hw

/-- No number starts, behind a sign or without one, where none could go on. -/
theorem scan_eq_none_of_avoids {t : Text} (h : Avoids goesOn (t.drop (signCount t))) :
    scan t = none :=
  scan_eq_none_of_not_looksNumeric (List.nil_append _).symm (h.mono fun _ => goesOn_of_isFigure)
    (by simp [LooksNumeric]) (h.mono fun c hc => by simp [goesOn, hc])

end Real

end Peg
