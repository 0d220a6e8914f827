/-
  Peg.Proofs.CaseFolding

  Terminals that ignore case. Each kind of terminal ignores it in its own way: by the
  full case forms of characters, by their ASCII lower case, by both cases of a range,
  by taking letters of either case as digits. All of them take as many bytes of a
  text as of that text in lower case.
-/
import Peg.Proofs.Numerals
import Peg.Proofs.SymbolSearch

namespace Peg

open Text

/-! ## Characters -/

namespace Text

/-- Only ASCII letters have a lower case of that kind. -/
theorem toLower_of_not_ascii {c : Char} (h : 128 ≤ c.toNat) : c.toLower = c := by
  rw [Char.toLower, dif_neg]
  rintro ⟨-, hz⟩
  have hz : c.toNat ≤ 90 := UInt32.le_iff_toNat_le.mp hz
  omega

/-- What holds of each character of ASCII, one by one. -/
theorem forall_ascii {P : Char → Prop} (h : ∀ n : Fin 128, P (Char.ofNat n)) {c : Char}
    (hc : c.toNat < 128) : P c := by
  have hn := h ⟨c.toNat, hc⟩
  rwa [Char.ofNat_toNat] at hn

/-- All images under the run are characters, and come from `low` on. -/
def CaseRun.LeadsFrom (r : CaseRun) (low : Nat) : Prop :=
  low ≤ r.first + r.shift ∧
    (r.last + r.shift < 0xd800 ∨ 0xdfff < r.first + r.shift ∧ r.last + r.shift < 0x110000)

instance (r : CaseRun) (low : Nat) : Decidable (r.LeadsFrom low) :=
  inferInstanceAs (Decidable (_ ∧ _))

theorem CaseRun.LeadsFrom.le_image {r : CaseRun} {low n m : Nat} (hr : r.LeadsFrom low)
    (h : r.image? n = some m) : low ≤ (Char.ofNat m).toNat := by
  rw [image?] at h
  split at h
  · rename_i hin
    obtain ⟨hlow, hvalid⟩ := hr
    cases h
    rw [Char.toNat_ofNat, if_pos]
    · omega
    · simp only [Nat.isValidChar]
      omega
  · cases h

/-- A case mapping, by a function on ASCII and by tables beyond, moves no character to one before
    `low` if the function and the tables lead to characters from there on. -/
theorem eq_of_mem_cased {ascii : Char → Char} {sequences : List (Nat × List Nat)}
    {runs : List CaseRun} {low : Nat}
    (hascii : ∀ n : Fin 128, ascii (Char.ofNat n) = Char.ofNat n ∨
      low ≤ (ascii (Char.ofNat n)).toNat)
    (hsequences : ∀ row ∈ sequences, ∀ n ∈ row.2, low ≤ (Char.ofNat n).toNat)
    (hruns : ∀ r ∈ runs, r.LeadsFrom low) {c x : Char}
    (hx : x ∈ if c.toNat < 128 then [ascii c] else mapCase sequences runs c)
    (hlow : x.toNat < low) : x = c := by
  split at hx
  · rename_i hc
    cases List.mem_singleton.mp hx
    have hmoved := forall_ascii (P := fun c => ascii c = c ∨ low ≤ (ascii c).toNat) hascii hc
    exact hmoved.resolve_right (Nat.not_le.mpr hlow)
  · rw [mapCase] at hx
    split at hx
    · rename_i ns hns
      obtain ⟨before, after, hrow, -⟩ := List.lookup_eq_some_iff.mp hns
      obtain ⟨n, hn, rfl⟩ := List.mem_map.mp hx
      have hbeyond := hsequences (c.toNat, ns) (by rw [hrow]; simp) n hn
      exact absurd hbeyond (Nat.not_le.mpr hlow)
    · split at hx
      · rename_i n hn
        obtain ⟨r, hr, himage⟩ := List.exists_of_findSome?_eq_some hn
        cases List.mem_singleton.mp hx
        exact absurd ((hruns r hr).le_image himage) (Nat.not_le.mpr hlow)
      · exact List.mem_singleton.mp hx

/-- What is the same for both cases of every ASCII letter never tells a character from its lower
    case. -/
theorem toLower_blind {β : Type} (f : Char → β)
    (h : ∀ n : Fin 128, f (Char.ofNat n).toLower = f (Char.ofNat n)) (c : Char) :
    f c.toLower = f c := by
  by_cases hc : c.toNat < 128
  · exact forall_ascii (P := fun c => f c.toLower = f c) h hc
  · rw [toLower_of_not_ascii (Nat.le_of_not_lt hc)]

theorem toLower_toLower (c : Char) : c.toLower.toLower = c.toLower :=
  toLower_blind Char.toLower (by decide) c

theorem isDigit_toLower (c : Char) : c.toLower.isDigit = c.isDigit :=
  toLower_blind Char.isDigit (by decide) c

theorem utf8Size_toLower (c : Char) : c.toLower.utf8Size = c.utf8Size :=
  toLower_blind Char.utf8Size (by decide) c

theorem lowerCase_toLower (c : Char) : lowerCase c.toLower = lowerCase c :=
  toLower_blind lowerCase (by decide) c

theorem upperCase_toLower (c : Char) : upperCase c.toLower = upperCase c :=
  toLower_blind upperCase (by decide) c

/-- Characters of ASCII are among their case forms. Beyond ASCII there are some that are not. -/
theorem mem_forms {c : Char} (hc : c.toNat < 128) :
    c ∈ lowerCase c ++ upperCase c ∧
      c.toLower ∈ lowerCase c.toLower ++ upperCase c.toLower :=
  forall_ascii (P := fun c => c ∈ lowerCase c ++ upperCase c ∧
    c.toLower ∈ lowerCase c.toLower ++ upperCase c.toLower) (by decide) hc

/-- Signs, points and line terminators have no other case. -/
theorem toLower_eq_mark {a : Char} (ha : a ∈ ['+', '-', '.', '\r', '\n']) (c : Char) :
    c.toLower = a ↔ c = a := by
  simp only [List.mem_cons, List.not_mem_nil, or_false] at ha
  obtain rfl | rfl | rfl | rfl | rfl := ha
  all_goals exact decide_eq_decide.mp (toLower_blind (fun c => decide (c = _)) (by decide) c)

theorem toLower_exponent (c : Char) :
    c.toLower = 'e' ∨ c.toLower = 'E' ↔ c = 'e' ∨ c = 'E' :=
  decide_eq_decide.mp (toLower_blind (fun c => decide (c = 'e' ∨ c = 'E')) (by decide) c)

/-- Without case characters agree if their lower case forms do. -/
theorem agree_noCase (c a : Char) : agree true c a = (lowerCase c == lowerCase a) := by
  simp only [agree, sameLetter, if_true]
  by_cases h : c = a
  · simp [h]
  · simp [h]

theorem agree_toLower (c a : Char) : agree true c.toLower a = agree true c a := by
  rw [agree_noCase, agree_noCase, lowerCase_toLower]

end Text

/-! ## Tests -/

namespace CharClass

/-- The classes have both cases of a letter or neither, with one class for both when case is
    ignored. -/
theorem test_toLower (k : CharClass) (c : Char) : k.test true c.toLower = k.test true c := by
  cases k
  all_goals exact toLower_blind (CharClass.test _ true) (by decide) c

end CharClass

namespace CharTest

/-- A character that is one of its case forms is in a range if one of the forms is. -/
theorem testRange_of_mem {c : Char} (hc : c ∈ lowerCase c ++ upperCase c) (lo hi : Char) :
    testRange lo hi true c = (lowerCase c ++ upperCase c).any (within lo hi) := by
  rw [testRange, Bool.true_and, ← List.any_append, Bool.or_eq_right_iff_imp]
  intro hin
  exact List.any_eq_true.mpr ⟨c, hc, hin⟩

theorem testRange_toLower (lo hi c : Char) :
    testRange lo hi true c.toLower = testRange lo hi true c := by
  by_cases hc : c.toNat < 128
  · obtain ⟨hown, hlower⟩ := mem_forms hc
    rw [testRange_of_mem hlower, testRange_of_mem hown, lowerCase_toLower, upperCase_toLower]
  · -- beyond ASCII a range can hold a character and neither of its forms, but not in two cases
    rw [toLower_of_not_ascii (Nat.le_of_not_lt hc)]

theorem test_toLower (t : CharTest) (c : Char) : t.test true c.toLower = t.test true c := by
  induction t with
  | single a => exact agree_toLower c a
  | any => rfl
  | range lo hi => exact testRange_toLower lo hi c
  | set definition =>
    simp only [test, testRange_toLower]
  | named k => exact k.test_toLower c
  | negated t ih => rw [test, test, ih]

end CharTest

/-! ## Words -/

namespace Literal

theorem scan_toLower (word t : Text) : scan true word (t.map Char.toLower) = scan true word t := by
  induction word generalizing t with
  | nil => rfl
  | cons w ws ih =>
    cases t with
    | nil => rfl
    | cons c r => rw [List.map_cons, scan, scan, agree_toLower, utf8Size_toLower, ih]

theorem scanAscii_toLower (word t : Text) :
    scanAscii word (t.map Char.toLower) = scanAscii word t := by
  induction word generalizing t with
  | nil => rfl
  | cons w ws ih =>
    cases t with
    | nil => rfl
    | cons c r => rw [List.map_cons, scanAscii, scanAscii, toLower_toLower, utf8Size_toLower, ih]

theorem scanBool_toLower (t : Text) : scanBool true (t.map Char.toLower) = scanBool true t := by
  simp only [scanBool, if_true, scanAscii_toLower]

end Literal

/-! ## Integers -/

namespace Integer

/-- Digits in a base are those digits of the greatest base that are below it. -/
theorem digitValue?_eq (radix : Nat) (c : Char) :
    digitValue? radix c = (digitValue? 36 c).filter (· < radix) := by
  rw [digitValue?, digitValue?]
  generalize (if '0' ≤ c ∧ c ≤ '9' then _ else _ : Nat) = n
  by_cases h36 : n < 36
  · by_cases hradix : n < radix
    · simp [h36, hradix, Option.filter]
    · simp [h36, hradix, Option.filter]
  · simp [h36]

theorem digitValue?_toLower (radix : Nat) (c : Char) :
    digitValue? radix c.toLower = digitValue? radix c := by
  rw [digitValue?_eq radix c.toLower, digitValue?_eq radix c,
    toLower_blind (digitValue? 36) (by decide) c]

theorem digitRun_toLower (radix : Nat) (limit : Option Nat) (t : Text) :
    digitRun radix limit (t.map Char.toLower) = digitRun radix limit t := by
  induction t generalizing limit with
  | nil => rfl
  | cons c r ih =>
    match limit with
    | some 0 => rfl
    | none => simp only [List.map_cons, digitRun, digitValue?_toLower, ih]
    | some (k + 1) => simp only [List.map_cons, digitRun, digitValue?_toLower, ih]

theorem scanDigits_toLower (n : Integer) (negative : Bool) (t : Text) :
    n.scanDigits negative (t.map Char.toLower) = n.scanDigits negative t := by
  simp only [scanDigits, digitRun_toLower]

/-- The integer in front of a text by its first character. -/
theorem scan_cons (n : Integer) (c : Char) (r : Text) :
    n.scan (c :: r) =
      if n.allowSign = true ∧ c = '-' then
        (n.scanDigits true r).map fun (len, v) => (len + 1, v)
      else if n.allowSign = true ∧ c = '+' then
        (n.scanDigits false r).map fun (len, v) => (len + 1, v)
      else n.scanDigits false (c :: r) := by
  unfold scan
  split
  · rename_i r' hsign ht
    cases ht
    rw [if_pos ⟨hsign, rfl⟩]
  · rename_i r' hsign ht
    cases ht
    rw [if_neg (fun h => absurd h.2 (by decide)), if_pos ⟨hsign, rfl⟩]
  · rename_i hminus hplus
    rw [if_neg, if_neg]
    · rintro ⟨hsign, rfl⟩
      exact hplus r hsign rfl
    · rintro ⟨hsign, rfl⟩
      exact hminus r hsign rfl

theorem scan_toLower (n : Integer) (t : Text) : n.scan (t.map Char.toLower) = n.scan t := by
  cases t with
  | nil => rfl
  | cons c r =>
    have hdigits := n.scanDigits_toLower false (c :: r)
    rw [List.map_cons] at hdigits ⊢
    rw [scan_cons, scan_cons, scanDigits_toLower, scanDigits_toLower, hdigits]
    simp only [toLower_eq_mark (a := '-') (by decide), toLower_eq_mark (a := '+') (by decide)]

end Integer

/-! ## Real numbers -/

namespace Real

theorem digitCount_toLower (t : Text) : digitCount (t.map Char.toLower) = digitCount t := by
  induction t with
  | nil => rfl
  | cons c r ih =>
    simp only [digitCount] at ih ⊢
    rw [List.map_cons, List.takeWhile_cons, List.takeWhile_cons, isDigit_toLower]
    split
    · exact congrArg (· + 1) ih
    · rfl

theorem signCount_cons (c : Char) (r : Text) :
    signCount (c :: r) = if c = '+' ∨ c = '-' then 1 else 0 := by
  unfold signCount
  split
  · rename_i ht
    cases ht
    rfl
  · rename_i ht
    cases ht
    rfl
  · rename_i hplus hminus
    rw [if_neg]
    rintro (rfl | rfl)
    · exact hplus r rfl
    · exact hminus r rfl

theorem signCount_toLower (t : Text) : signCount (t.map Char.toLower) = signCount t := by
  cases t with
  | nil => rfl
  | cons c r =>
    rw [List.map_cons, signCount_cons, signCount_cons]
    simp only [toLower_eq_mark (a := '-') (by decide), toLower_eq_mark (a := '+') (by decide)]

theorem exponentLength_toLower (t : Text) :
    exponentLength (t.map Char.toLower) = exponentLength t := by
  cases t with
  | nil => rfl
  | cons c r =>
    simp only [List.map_cons, exponentLength, toLower_exponent, signCount_toLower, ← List.map_drop,
      digitCount_toLower]

theorem mantissaLength?_toLower (t : Text) :
    mantissaLength? (t.map Char.toLower) = mantissaLength? t := by
  simp only [mantissaLength?, digitCount_toLower, ← List.map_drop]
  generalize t.drop (digitCount t) = s
  cases s with
  | nil => rfl
  | cons c r =>
    rw [List.map_cons]
    by_cases hc : c = '.'
    · subst hc
      have hpoint : '.'.toLower = '.' := rfl
      simp only [hpoint, digitCount_toLower]
    · have hlower : c.toLower ≠ '.' := fun h => hc ((toLower_eq_mark (by decide) c).mp h)
      simp [hc, hlower]

theorem scan_toLower (t : Text) : scan (t.map Char.toLower) = scan t := by
  simp only [scan, signCount_toLower, ← List.map_drop, Literal.scanAscii_toLower,
    mantissaLength?_toLower, exponentLength_toLower]

end Real

/-! ## Symbols -/

namespace Trie

variable {α : Type}

theorem spells_toLower {t : Text} {tree : Trie α} {n : Nat} :
    Spells true (t.map Char.toLower) tree n ↔ Spells true t tree n := by
  induction t generalizing tree n with
  | nil => exact Iff.rfl
  | cons c r ih =>
    rw [List.map_cons]
    constructor
    · intro h
      cases h with
      | here hv => exact .here hv
      | deeper hu hk h =>
        rw [agree_toLower] at hk
        rw [utf8Size_toLower]
        exact .deeper hu hk (ih.mp h)
    · intro h
      cases h with
      | here hv => exact .here hv
      | deeper hu hk h =>
        rw [← agree_toLower] at hk
        rw [← utf8Size_toLower]
        exact .deeper hu hk (ih.mpr h)

end Trie

/-! ## Terminals -/

namespace Terminal

/-- The line terminator in front of a text by its first characters. -/
theorem scanEol_cons (c : Char) (r : Text) :
    scanEol (c :: r) =
      if c = '\r' then some (if r.head? = some '\n' then 2 else 1)
      else if c = '\n' then some 1 else none := by
  by_cases hr : c = '\r'
  · subst hr
    cases r with
    | nil => rfl
    | cons d r =>
      by_cases hn : d = '\n'
      · subst hn
        rfl
      · simp [scanEol, hn]
  · by_cases hn : c = '\n'
    · subst hn
      rfl
    · simp [scanEol, hr, hn]

theorem scanEol_toLower (t : Text) : scanEol (t.map Char.toLower) = scanEol t := by
  cases t with
  | nil => rfl
  | cons c r =>
    have hhead : (r.map Char.toLower).head? = some '\n' ↔ r.head? = some '\n' := by
      cases r with
      | nil => exact Iff.rfl
      | cons d r =>
        simp only [List.map_cons, List.head?_cons, Option.some.injEq]
        exact toLower_eq_mark (by decide) d
    rw [List.map_cons, scanEol_cons, scanEol_cons]
    simp only [hhead, toLower_eq_mark (a := '\r') (by decide),
      toLower_eq_mark (a := '\n') (by decide)]

/-- A real number that is found is read, so that the bytes taken are those of the number. -/
theorem scanReal_length (rest : Text) (value : Real → Value) :
    (scan.scanReal rest value).map Prod.fst = Real.scan rest := by
  cases hs : Real.scan rest with
  | none =>
    rw [Real.scanReal_of_none hs]
    rfl
  | some n =>
    obtain ⟨-, -, x, -, -, -, hvalue⟩ := Real.scanReal_of_scan hs
    rw [hvalue]
    rfl

/-- The tables among the terminals are proper. -/
def Proper : Terminal → Prop
  | .symbols _ table => table.Proper
  | _ => True

/-- A terminal that ignores case takes as many bytes of a text as of the text in lower case. -/
theorem scan_toLower {t : Terminal} (ht : t.Proper) (rest : Text) :
    (t.scan true (rest.map Char.toLower)).map Prod.fst = (t.scan true rest).map Prod.fst := by
  cases t with
  | char t =>
    cases rest with
    | nil => rfl
    | cons c r =>
      rw [List.map_cons]
      simp only [scan, t.test_toLower, utf8Size_toLower]
      split <;> rfl
  | lit a =>
    cases rest with
    | nil => rfl
    | cons c r =>
      rw [List.map_cons]
      simp only [scan, agree_toLower, utf8Size_toLower]
  | word w => simp only [scan, Literal.scan_toLower]
  | string w => simp only [scan, Literal.scan_toLower, Option.map_map, Function.comp_def]
  | integer n => simp only [scan, n.scan_toLower]
  | double => simp only [scan, scanReal_length, Real.scan_toLower]
  | single => simp only [scan, scanReal_length, Real.scan_toLower]
  | bool => simp only [scan, Literal.scanBool_toLower]
  | eoi => simp only [scan, List.isEmpty_map]
  | eol => simp only [scan, scanEol_toLower]
  | symbols ty table =>
    refine (table.scan_furthest ht true rest).length_eq ?_
    refine (table.scan_furthest ht true _).congr fun n => ?_
    exact Trie.spells_toLower

end Terminal

end Peg
