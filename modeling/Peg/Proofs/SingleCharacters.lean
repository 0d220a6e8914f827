/-
  Peg.Proofs.SingleCharacters

  One character as a test of its own, as a range, and as a set. With case the three
  accept that character. Without case the character itself is compared by lower case
  forms, while a range and a set look for a character among the one at hand and its
  forms in both cases. That comes to the same for letters of which each case is the
  one form of the other, as in ASCII, but not for those that share a form with
  another letter or have a form of several characters.
-/
import Peg.Proofs.CaseFolding

namespace Peg

open Text

namespace Text

/-! ## Letters of two cases -/

/-- The characters are the lower and the upper case of one letter, each the whole form of both in
    its case. A character without case is such a pair with itself. -/
structure CasePair (lower upper : Char) : Prop where
  lower_lower : lowerCase lower = [lower]
  upper_lower : upperCase lower = [upper]
  lower_upper : lowerCase upper = [lower]
  upper_upper : upperCase upper = [upper]

/-- The character is one of the two cases of a letter. -/
def TwoCased (c : Char) : Prop := ∃ lower upper, CasePair lower upper ∧ (c = lower ∨ c = upper)

/-- Either case of a letter has these forms. -/
theorem CasePair.forms {lower upper c : Char} (h : CasePair lower upper)
    (hc : c = lower ∨ c = upper) : lowerCase c = [lower] ∧ upperCase c = [upper] := by
  obtain rfl | rfl := hc
  · exact ⟨h.lower_lower, h.upper_lower⟩
  · exact ⟨h.lower_upper, h.upper_upper⟩

/-- All characters of ASCII are of this kind. -/
theorem twoCased_of_ascii {c : Char} (hc : c.toNat < 128) : TwoCased c := by
  obtain ⟨⟨hll, hul, hlu, huu⟩, hcase⟩ := forall_ascii (P := fun c =>
    (lowerCase c.toLower = [c.toLower] ∧ upperCase c.toLower = [c.toUpper] ∧
      lowerCase c.toUpper = [c.toLower] ∧ upperCase c.toUpper = [c.toUpper]) ∧
    (c = c.toLower ∨ c = c.toUpper)) (by decide) hc
  exact ⟨c.toLower, c.toUpper, ⟨hll, hul, hlu, huu⟩, hcase⟩

/-- For such characters the lower case forms are the same if and only if one of the characters is
    among the other one and its forms. -/
theorem TwoCased.lowerCase_eq_iff {c d : Char} (hc : TwoCased c) (hd : TwoCased d) :
    lowerCase d = lowerCase c ↔ d = c ∨ c ∈ lowerCase d ∨ c ∈ upperCase d := by
  obtain ⟨l, u, hc, hcase⟩ := hc
  obtain ⟨l', u', hd, hcase'⟩ := hd
  rw [(hc.forms hcase).1, (hd.forms hcase').1, (hd.forms hcase').2, List.mem_singleton,
    List.mem_singleton]
  constructor
  · intro h
    cases h
    -- the same lower case, and so the same upper case
    obtain rfl : u = u' := List.singleton_inj.mp (hc.upper_lower.symm.trans hd.upper_lower)
    exact .inr hcase
  · rintro (rfl | rfl | rfl)
    · rw [← (hc.forms hcase).1, (hd.forms hcase').1]
    · rw [← (hc.forms hcase).1, hd.lower_lower]
    · rw [← (hc.forms hcase).1, hd.lower_upper]

end Text

namespace CharTest

/-! ## One character, three tests -/

theorem within_self_iff (c d : Char) : within c c d = true ↔ d = c := by
  simp only [within, Bool.and_eq_true, decide_eq_true_eq]
  exact ⟨fun h => le_antisymm h.2 h.1, fun h => h ▸ ⟨le_refl _, le_refl _⟩⟩

/-- The range of one character accepts that character, and without case those that have it as one of
    their forms. -/
theorem testRange_self_iff (c : Char) (noCase : Bool) (d : Char) :
    testRange c c noCase d = true ↔
      d = c ∨ noCase = true ∧ (c ∈ lowerCase d ∨ c ∈ upperCase d) := by
  simp only [testRange, Bool.or_eq_true, Bool.and_eq_true, List.any_eq_true, within_self_iff,
    exists_eq_right]

/-- A set of one character is the range of it, also if that is a dash. -/
theorem test_set_singleton (c : Char) (noCase : Bool) (d : Char) :
    (set [c]).test noCase d = (range c c).test noCase d :=
  Bool.or_false _

theorem test_single_iff (c : Char) (noCase : Bool) (d : Char) :
    (single c).test noCase d = true ↔
      d = c ∨ noCase = true ∧ lowerCase d = lowerCase c := by
  cases noCase with
  | false => simp [test, agree]
  | true => simp [test, agree, sameLetter]

/-- For a character and one at hand that are cases of letters, the test of the character and its
    range are the same. -/
theorem test_range_self {c d : Char} (hc : TwoCased c) (hd : TwoCased d) (noCase : Bool) :
    (range c c).test noCase d = (single c).test noCase d := by
  rw [Bool.eq_iff_iff, test_single_iff, hc.lowerCase_eq_iff hd]
  exact (testRange_self_iff c noCase d).trans
    (by by_cases he : d = c <;> simp [he])

/-- What a character, its range and its set accept. With case all three accept that character only.
    Without case the character accepts those with the same lower case form, and the range and the
    set those that are the character or have it among their forms. For cases of letters this is the
    same, and then so are the negations. -/
theorem one_character_three_tests (c d : Char) :
    (∀ noCase, (set [c]).test noCase d = (range c c).test noCase d) ∧
    ((single c).test false d = true ↔ d = c) ∧ ((range c c).test false d = true ↔ d = c) ∧
    ((single c).test true d = true ↔ lowerCase d = lowerCase c) ∧
    ((range c c).test true d = true ↔ d = c ∨ c ∈ lowerCase d ∨ c ∈ upperCase d) ∧
    (TwoCased c → TwoCased d → ∀ noCase, ∀ t ∈ [single c, range c c, set [c]],
      t.test noCase d = (single c).test noCase d ∧
        (negated t).test noCase d = (negated (single c)).test noCase d) := by
  refine ⟨fun noCase => test_set_singleton c noCase d, ?_, ?_, ?_, ?_, ?_⟩
  · simp [test_single_iff]
  · exact (testRange_self_iff c false d).trans (by simp)
  · rw [test_single_iff]
    exact ⟨fun h => h.elim (fun he => he ▸ rfl) And.right, fun h => .inr ⟨rfl, h⟩⟩
  · exact (testRange_self_iff c true d).trans (by simp)
  · intro hc hd noCase t ht
    have hsame : t.test noCase d = (single c).test noCase d := by
      simp only [List.mem_cons, List.not_mem_nil, or_false] at ht
      obtain rfl | rfl | rfl := ht
      · rfl
      · exact test_range_self hc hd noCase
      · exact (test_set_singleton c noCase d).trans (test_range_self hc hd noCase)
    exact ⟨hsame, congrArg (!·) hsame⟩

/-- A letter beyond ASCII that has two cases. -/
theorem one_character_three_tests_acute :
    TwoCased 'é' ∧ TwoCased 'É' ∧ ∀ noCase, ∀ t ∈ [single 'É', range 'É' 'É', set ['É']],
      t.test noCase 'é' = (single 'É').test noCase 'é' ∧
        (negated t).test noCase 'é' = (negated (single 'É')).test noCase 'é' := by
  have hpair : CasePair 'é' 'É' := ⟨by decide, by decide, by decide, by decide⟩
  have hlower : TwoCased 'é' := ⟨'é', 'É', hpair, .inl rfl⟩
  have hupper : TwoCased 'É' := ⟨'é', 'É', hpair, .inr rfl⟩
  exact ⟨hlower, hupper, (one_character_three_tests 'É' 'é').2.2.2.2.2 hupper hlower⟩

/-- The sign of the kelvin has the lower case of `k`, which has another upper case; and the upper
    case of `ß` is two letters `S`. -/
theorem one_character_tests_differ :
    ((single '\u212a').test true 'k' = true ∧ (range '\u212a' '\u212a').test true 'k' = false ∧
      (set ['\u212a']).test true 'k' = false) ∧
    (single 'S').test true 'ß' = false ∧ (range 'S' 'S').test true 'ß' = true ∧
      (set ['S']).test true 'ß' = true := by
  decide

end CharTest

end Peg
