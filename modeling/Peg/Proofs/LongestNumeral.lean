/-
  Peg.Proofs.LongestNumeral

  The scanner for real numbers takes the longest numeral at the front of a text.
  What it takes is a numeral, and whatever numeral the text starts with, it takes
  at least that: a numeral that ends too early can only be followed by more of
  the same part, and then has no part after it. A text is read as a number
  exactly if it is a numeral, so that a number is taken wherever one is found.
-/
import Peg.Proofs.Numerals
import Peg.Proofs.Postcondition

namespace Peg

open Text

namespace Real

/-! ## A scan takes at least as much -/

theorem le_digitCount_append {d : Text} (hd : AreDigits d) (r : Text) :
    d.length ≤ digitCount (d ++ r) := by
  rw [digitCount, List.takeWhile_append_of_pos hd, List.length_append]
  exact Nat.le_add_right _ _

theorem le_exponentLength_append {x : Text} (hx : IsExponent x) (r : Text) :
    x.length ≤ exponentLength (x ++ r) := by
  obtain rfl | ⟨e, s, d, rfl, he, hs, hd, hne⟩ := hx
  · exact Nat.zero_le _
  · obtain ⟨c, d', rfl⟩ := List.exists_cons_of_ne_nil hne
    have hc := isFigure_of_isDigit (hd c List.mem_cons_self)
    have hle := le_digitCount_append hd r
    rw [List.cons_append, List.append_assoc, exponentLength, if_pos he]
    simp only [signCount_figures hs (List.cons_append ..) hc, List.drop_left]
    rw [if_neg (by rw [List.length_cons] at hle; omega)]
    simp only [List.length_cons, List.length_append] at hle ⊢
    omega

theorem le_mantissaLength?_append {m : Text} (hm : IsMantissa m) (r : Text) :
    ∃ n, mantissaLength? (m ++ r) = some n ∧ m.length ≤ n := by
  obtain ⟨hm, hne⟩ | ⟨whole, part, rfl, hwhole, hpart, hne⟩ := hm
  · have hle := le_digitCount_append hm r
    have hpos : 0 < m.length := List.length_pos_iff.mpr hne
    rw [mantissaLength?]
    split
    · rw [if_neg (by omega)]
      exact ⟨_, rfl, by omega⟩
    · rw [if_neg (by omega)]
      exact ⟨_, rfl, hle⟩
  · have hpoint : Avoids Char.isDigit ('.' :: (part ++ r)) := avoids_cons.mpr (by decide)
    have hle := le_digitCount_append hpart r
    rw [List.append_assoc, List.cons_append, mantissaLength?, digitCount_append hwhole hpoint,
      List.drop_left]
    split
    · rename_i r' h
      obtain rfl := (List.cons.inj h).2
      refine ⟨_, if_neg fun hnone => hne ⟨List.length_eq_zero_iff.mp hnone.1,
        List.length_eq_zero_iff.mp (by omega)⟩, ?_⟩
      simp only [List.length_append, List.length_cons]
      omega
    · rename_i hno
      exact absurd rfl (hno _)

/-- The lengths of the words descend. -/
theorem words_descend : words.Pairwise fun w v => v.toList.length ≤ w.toList.length := by
  decide

theorem scanAscii_length {w t : Text} {n : Nat} (hw : ∀ c ∈ w, c.toLower = c ∧ c.toNat ≤ 127)
    (h : Literal.scanAscii w t = some n) : n = w.length := by
  obtain ⟨hn, he⟩ := scanAscii_take hw h
  rw [← he, List.length_map, List.length_take, Nat.min_eq_left hn.1]

theorem scanAscii_append {w b : Text} (hw : ∀ c ∈ w, c.toLower = c ∧ c.toNat ≤ 127)
    (hb : b.map Char.toLower = w) (r : Text) : Literal.scanAscii w (b ++ r) = some w.length := by
  induction b generalizing w with
  | nil =>
    cases hb
    cases r <;> rfl
  | cons c b ih =>
    obtain rfl := hb
    obtain ⟨hlower, hascii⟩ := hw c.toLower List.mem_cons_self
    rw [List.map_cons, List.cons_append, Literal.scanAscii, if_pos hlower.symm,
      ih (fun d hd => hw d (List.mem_cons_of_mem _ hd)) rfl, utf8Size_of_toLower hascii]
    simp [Nat.add_comm]

/-- The first word that is found is the longest one that there is. -/
theorem le_findSome?_words {b : Text} (hb : IsWord b) (r : Text) :
    ∃ n, words.findSome? (fun w => Literal.scanAscii w.toList (b ++ r)) = some n ∧
      b.length ≤ n := by
  obtain ⟨w, hw, he⟩ := List.mem_map.mp hb
  have hfound : Literal.scanAscii w.toList (b ++ r) = some w.toList.length :=
    scanAscii_append (word_ascii w hw) he.symm r
  have hsome : (words.findSome? fun w => Literal.scanAscii w.toList (b ++ r)).isSome := by
    rw [List.findSome?_isSome_iff]
    exact ⟨w, hw, by rw [hfound]; rfl⟩
  obtain ⟨n, hn⟩ := Option.isSome_iff_exists.mp hsome
  refine ⟨n, hn, ?_⟩
  obtain ⟨before, v, after, hwords, hv, hnone⟩ := List.findSome?_eq_some_iff.mp hn
  have hlen : b.length = w.toList.length := by rw [he, List.length_map]
  have hmem : v ∈ words := by rw [hwords]; simp
  rw [hlen, scanAscii_length (word_ascii v hmem) hv]
  -- no word before the one that was found stands there
  rw [hwords] at hw
  obtain hw | rfl | hw := by simpa using hw
  · rw [hnone w hw] at hfound
    cases hfound
  · exact Nat.le_refl _
  · have hdescend := words_descend
    rw [hwords] at hdescend
    exact List.rel_of_pairwise_cons (List.pairwise_append.mp hdescend).2.1 hw

/-- A mantissa that could go on has no exponent after it. -/
theorem IsExponent.eq_nil {x r : Text} (hx : IsExponent x) (hr : ¬ Avoids isFigure (x ++ r)) :
    x = [] := by
  by_contra hne
  exact hr (hx.avoids_isFigure fun h => absurd h hne)

/-- A scan takes no less than a numeral that the text starts with. -/
theorem le_scan_append {q : Text} (hq : IsNumeral q) (r : Text) :
    ∃ n, scan (q ++ r) = some n ∧ q.length ≤ n := by
  obtain ⟨s, b, rfl, hs, hb | hb⟩ := hq
  · rw [List.append_assoc, scan_decimal hs hb]
    obtain ⟨m, x, rfl, hm, hx⟩ := hb
    rw [List.append_assoc]
    by_cases hfig : Avoids isFigure (x ++ r)
    · have hle := le_exponentLength_append hx r
      rw [mantissaLength?_append hm hfig]
      simp only [Option.map_some, List.drop_left]
      refine ⟨_, rfl, ?_⟩
      simp only [List.length_append]
      omega
    · -- the mantissa goes on, and so nothing but it was there
      obtain rfl := hx.eq_nil hfig
      obtain ⟨n, hn, hle⟩ := le_mantissaLength?_append hm ([] ++ r)
      rw [hn]
      refine ⟨_, rfl, ?_⟩
      simp only [List.length_append, List.length_nil]
      omega
  · obtain ⟨n, hn, hle⟩ := le_findSome?_words hb r
    rw [List.append_assoc, scan, signCount_word hs hb, List.drop_left, hn]
    refine ⟨_, rfl, ?_⟩
    rw [List.length_append]
    omega

/-! ## What is read is a numeral -/

theorem isExponent_of_readExponent? {x : Text} (h : (readExponent? x).isSome) :
    IsExponent x := by
  cases x with
  | nil => exact .inl rfl
  | cons e r =>
    simp only [readExponent?] at h
    split at h
    · rename_i hexponent
      obtain ⟨he, hne, hdigits⟩ := hexponent
      exact .inr ⟨e, r.take (signCount r), r.drop (signCount r), by rw [List.take_append_drop], he,
        isSign_take r, List.all_eq_true.mp hdigits, hne⟩
    · cases h

theorem isDecimal_of_readDecimal? {t : Text} (h : (readDecimal? t).isSome) : IsDecimal t := by
  have hsplit : t.takeWhile Char.isDigit ++ t.dropWhile Char.isDigit = t :=
    List.takeWhile_append_dropWhile
  simp only [readDecimal?] at h
  split at h
  · rename_i r hr
    split at h
    · cases h
    · rename_i hne
      rw [Option.isSome_map] at h
      refine ⟨t.takeWhile Char.isDigit ++ '.' :: r.takeWhile Char.isDigit,
        r.dropWhile Char.isDigit, ?_, .inr ⟨_, _, rfl, areDigits_takeWhile t,
          areDigits_takeWhile r, hne⟩, isExponent_of_readExponent? h⟩
      rw [List.append_assoc, List.cons_append, List.takeWhile_append_dropWhile, ← hr, hsplit]
  · split at h
    · cases h
    · rename_i hne
      rw [Option.isSome_map] at h
      exact ⟨_, _, hsplit.symm, .inl ⟨areDigits_takeWhile t, hne⟩, isExponent_of_readExponent? h⟩

/-- Reading accepts the numerals and nothing else. -/
theorem read?_isSome_iff {t : Text} : (read? t).isSome ↔ IsNumeral t := by
  refine ⟨fun h => ?_, IsNumeral.read?_isSome⟩
  refine ⟨t.take (signCount t), t.drop (signCount t), (List.take_append_drop ..).symm,
    isSign_take t, ?_⟩
  simp only [read?] at h
  split at h
  · rename_i hword
    refine .inr ?_
    obtain hword | hword := hword <;> simp [IsWord, words, hword]
  · split at h
    · rename_i hword
      exact .inr (by simp [IsWord, words, hword])
    · rw [Option.isSome_map] at h
      exact .inl (isDecimal_of_readDecimal? h)

/-! ## The longest numeral -/

theorem IsNumeral.ne_nil {t : Text} (h : IsNumeral t) : t ≠ [] := by
  obtain ⟨s, b, rfl, -, hb | hb⟩ := h
  · obtain ⟨c, r, rfl, -⟩ := hb.front
    simp
  · obtain ⟨c, r, rfl, -⟩ := hb.front
    simp

/-- What a scan takes, and that no numeral at the front of the text is longer. -/
theorem scan_eq_some {t : Text} {n : Nat} (h : scan t = some n) :
    ∃ p after, t = p ++ after ∧ byteLength p = n ∧ IsNumeral p ∧
      ∀ q, q <+: t → IsNumeral q → byteLength q ≤ n := by
  obtain ⟨hnarrow, hnumeral⟩ := isNumeral_take h
  refine ⟨t.take n, t.drop n, (List.take_append_drop n t).symm, hnarrow.byteLength_take, hnumeral,
    ?_⟩
  rintro q hpre hq
  obtain ⟨r, rfl⟩ := hpre
  obtain ⟨m, hm, hle⟩ := le_scan_append hq r
  cases h.symm.trans hm
  -- of two fronts of a text the one with less characters has less bytes
  have hlen : q.length ≤ ((q ++ r).take n).length := by
    rwa [List.length_take, Nat.min_eq_left hnarrow.1]
  obtain ⟨tail, htail⟩ := List.prefix_of_prefix_length_le (List.prefix_append q r)
    (List.take_prefix n (q ++ r)) hlen
  rw [← hnarrow.byteLength_take, ← htail, byteLength_append]
  exact Nat.le_add_right _ _

theorem scan_eq_none_iff {t : Text} : scan t = none ↔ ∀ q, q <+: t → ¬ IsNumeral q := by
  constructor
  · rintro hnone q ⟨r, rfl⟩ hq
    obtain ⟨n, hn, -⟩ := le_scan_append hq r
    rw [hn] at hnone
    cases hnone
  · intro hnone
    refine Option.eq_none_iff_forall_ne_some.mpr fun n hn => ?_
    obtain ⟨p, after, rfl, -, hp, -⟩ := scan_eq_some hn
    exact hnone p (List.prefix_append _ _) hp

theorem scan_eq_some_iff {t : Text} {n : Nat} :
    scan t = some n ↔ ∃ p, p <+: t ∧ p ≠ [] ∧ IsNumeral p ∧ byteLength p = n ∧
      ∀ q, q <+: t → IsNumeral q → byteLength q ≤ n := by
  constructor
  · intro h
    obtain ⟨p, after, rfl, hlen, hp, hlongest⟩ := scan_eq_some h
    exact ⟨p, List.prefix_append _ _, hp.ne_nil, hp, hlen, hlongest⟩
  · rintro ⟨p, hpre, -, hp, rfl, hlongest⟩
    cases hscan : scan t with
    | none => exact absurd hp (scan_eq_none_iff.mp hscan p hpre)
    | some m =>
      -- both are the longest
      obtain ⟨p', after', rfl, rfl, hp', hlongest'⟩ := scan_eq_some hscan
      have hle := hlongest p' (List.prefix_append _ _) hp'
      exact congrArg some (Nat.le_antisymm hle (hlongest' p hpre hp))

/-! ## Parsing -/

/-- The scanner for real numbers takes the longest numeral that the text starts with, and finds
    nothing exactly if the text starts with no numeral. A text is read as a number exactly if it is
    a numeral. What a scan takes ends at a boundary and is read, so that the terminals for real
    numbers match, behind what is skipped, exactly where a scan finds a number. -/
theorem scan_longest_numeral (t : Text) :
    (∀ n, scan t = some n ↔ ∃ p, p <+: t ∧ p ≠ [] ∧ IsNumeral p ∧ byteLength p = n ∧
      ∀ q, q <+: t → IsNumeral q → byteLength q ≤ n) ∧
    (scan t = none ↔ ∀ q, q <+: t → ¬ IsNumeral q) ∧
    (∀ p, (read? p).isSome ↔ IsNumeral p) ∧
    (∀ n, scan t = some n → IsBoundary t n ∧ ∃ p x, takeBytes? t n = some p ∧ read? p = some x) ∧
    ∀ (env : Env) (fuel : Nat) (ctx : Ctx) (st st1 : State),
      Node.skipOver env (parse env fuel) ctx st = .ok st1 → st1.cursor.rest = t →
      (∀ n, scan t = some n → ∃ p after x, t = p ++ after ∧ n = byteLength p ∧
        read? p = some x ∧
        parse env (fuel + 1) (.terminal .double) ctx st =
          .matched (.double x.toDouble) (st1.moveTo ⟨st1.offset + n, after⟩) ∧
        parse env (fuel + 1) (.terminal .single) ctx st =
          .matched (.single x.toSingle) (st1.moveTo ⟨st1.offset + n, after⟩)) ∧
      (scan t = none →
        parse env (fuel + 1) (.terminal .double) ctx st = .failed (st1.moveTo st.cursor) ∧
        parse env (fuel + 1) (.terminal .single) ctx st = .failed (st1.moveTo st.cursor)) := by
  refine ⟨fun _ => scan_eq_some_iff, scan_eq_none_iff, fun _ => read?_isSome_iff, ?_, ?_⟩
  · intro n h
    obtain ⟨p, after, x, ht, hn, hx, -⟩ := scanReal_of_scan h
    exact ⟨⟨p, after, ht, hn⟩, p, x, takeBytes?_eq_some_iff.mpr ⟨after, ht, hn⟩, hx⟩
  · rintro env fuel ctx st st1 hskip rfl
    constructor
    · intro n h
      obtain ⟨p, after, x, ht, hn, hx, hvalue⟩ := scanReal_of_scan h
      exact ⟨p, after, x, ht, hn, hx, parse_terminal_of_some (t := .double) hskip (hvalue _) ht hn,
        parse_terminal_of_some (t := .single) hskip (hvalue _) ht hn⟩
    · intro h
      exact ⟨parse_terminal_of_none (t := .double) hskip (scanReal_of_none h _),
        parse_terminal_of_none (t := .single) hskip (scanReal_of_none h _)⟩

/-- An exponent without digits is left where it is. -/
theorem scan_longest_numeral_cut :
    scan "+1.5e+;".toList = some 4 ∧
      (∀ q, q <+: "+1.5e+;".toList → IsNumeral q → byteLength q ≤ 4) ∧
      ∃ x, read? "+1.5".toList = some x ∧
        parse (.of "+1.5e+;".toList fun _ => none) 1 (.terminal .double) {}
            { cursor := .start "+1.5e+;".toList } =
          .matched (.double x.toDouble) { cursor := ⟨4, "e+;".toList⟩ } := by
  have hscan : scan "+1.5e+;".toList = some 4 := by decide
  have h := scan_longest_numeral "+1.5e+;".toList
  obtain ⟨q, -, -, -, -, hlongest⟩ := (h.1 4).mp hscan
  obtain ⟨p, after, x, ht, hn, hx, hparse, -⟩ :=
    (h.2.2.2.2 (.of "+1.5e+;".toList fun _ => none) 0 {} { cursor := .start "+1.5e+;".toList } _
      rfl rfl).1 4 hscan
  obtain ⟨rfl, rfl⟩ := append_inj_of_byteLength (s := "+1.5".toList) (t := "e+;".toList) ht hn
  exact ⟨hscan, hlongest, x, hx, hparse⟩

end Real

end Peg
