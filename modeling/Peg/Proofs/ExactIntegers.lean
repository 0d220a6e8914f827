/-
  Peg.Proofs.ExactIntegers

  Integers are read exactly. The figures that a terminal takes write a number in
  its base, and the terminal matches if there are enough of them and the number,
  with its sign, is one of the type. The checks along the way never refuse a
  number that the last one would accept: a number grows away from zero with
  every figure, so that what comes before lies between it and zero. The other
  way round, every number of the type is read back from its own writing, the
  least one included.
-/
import Peg.Proofs.CaseFolding
import Peg.Proofs.Postcondition

namespace Peg

open Text

namespace IntTy

/-- Every type has the numbers that are the base or a digit of one. -/
theorem holds_small (k : IntTy) {m : Nat} (hm : m ≤ 36) : k.holds m = true := by
  have hlow : k.lowest ≤ 0 := by cases k <;> decide
  have hhigh : 36 ≤ k.highest := by cases k <;> decide
  exact holds_iff.mpr ⟨by omega, by omega⟩

end IntTy

namespace Integer

/-! ## Numbers away from zero -/

/-- A number with its sign. -/
def signed (negative : Bool) (m : Nat) : Int := if negative then -m else m

@[simp] theorem signed_false (m : Nat) : signed false m = m := rfl

@[simp] theorem signed_true (m : Nat) : signed true m = -m := rfl

variable {k : Integer} {negative : Bool}

/-- What is nearer to zero is a value too. -/
theorem holds_signed_of_le {ty : IntTy} {m m' : Nat} (h : ty.holds (signed negative m) = true)
    (hle : m' ≤ m) : ty.holds (signed negative m') = true := by
  obtain ⟨hlow, hhigh⟩ := IntTy.holds_iff.mp h
  obtain ⟨hlow0, hhigh0⟩ := IntTy.holds_iff.mp (ty.holds_small (Nat.zero_le 36))
  refine IntTy.holds_iff.mpr ?_
  cases negative <;> simp only [signed_false, signed_true] at hlow hhigh ⊢ <;> omega

/-- Of the checks of a step only the last one decides. -/
theorem step_signed (hradix : k.radix ≤ 36) {d : Nat} (hd : d ≤ 36) (m : Nat) :
    k.step negative (signed negative m) d = k.ty.fit? (signed negative (d + k.radix * m)) := by
  have hproduct : signed negative m * k.radix = signed negative (k.radix * m) := by
    cases negative <;> simp [mul_comm]
  have hnext : (if negative = true then signed negative (k.radix * m) - d
      else signed negative (k.radix * m) + d) = signed negative (d + k.radix * m) := by
    cases negative
    · simp [add_comm]
    · simp only [if_true, signed_true, Nat.cast_add]
      omega
  simp only [step, hproduct, IntTy.fit?_of_holds (k.ty.holds_small hradix),
    IntTy.fit?_of_holds (k.ty.holds_small hd), Option.bind_eq_bind, Option.bind_some]
  by_cases hfit : k.ty.holds (signed negative (d + k.radix * m)) = true
  · rw [IntTy.fit?_of_holds (holds_signed_of_le hfit (Nat.le_add_left _ _)), Option.bind_some,
      hnext]
  · rw [IntTy.fit?_of_not_holds hfit]
    -- whether the product is refused or not, the new value is
    refine Option.bind_eq_none_iff.mpr fun product hp => ?_
    obtain rfl : product = signed negative (k.radix * m) := by
      rw [IntTy.fit?] at hp
      split at hp <;> cases hp
      rfl
    rw [hnext, IntTy.fit?_of_not_holds hfit]

/-- One more digit after those that make up a number. -/
def shift (radix m d : Nat) : Nat := d + radix * m

theorem le_foldl_shift {radix : Nat} (hradix : 0 < radix) (ds : List Nat) (m : Nat) :
    m ≤ ds.foldl (shift radix) m := by
  induction ds generalizing m with
  | nil => exact Nat.le_refl m
  | cons d ds ih =>
    have hshift : m ≤ shift radix m d :=
      Nat.le_trans (Nat.le_mul_of_pos_left m hradix) (Nat.le_add_left _ _)
    exact Nat.le_trans hshift (ih _)

/-- The checked fold over digits is the number that they make up, if it is one of the type. -/
theorem foldlM_step (hpos : 0 < k.radix) (hradix : k.radix ≤ 36) (ds : List Nat)
    (hds : ∀ d ∈ ds, d ≤ 36) (m : Nat) (hm : k.ty.holds (signed negative m) = true) :
    ds.foldlM (k.step negative) (signed negative m) =
      k.ty.fit? (signed negative (ds.foldl (shift k.radix) m)) := by
  -- by induction on the digits; the number before them is one of the type
  induction ds generalizing m with
  | nil => exact (IntTy.fit?_of_holds hm).symm
  | cons d ds ih =>
    rw [List.foldlM_cons, List.foldl_cons, step_signed hradix (hds d List.mem_cons_self)]
    by_cases hnext : k.ty.holds (signed negative (shift k.radix m d)) = true
    · have hrest := ih (fun d hd => hds d (List.mem_cons_of_mem _ hd)) _ hnext
      rw [← hrest, ← shift, IntTy.fit?_of_holds hnext]
      rfl
    · -- too far from zero already, and the digits that are left lead further away
      have hlast : ¬ k.ty.holds (signed negative (ds.foldl (shift k.radix) (shift k.radix m d))) =
          true := fun h => hnext (holds_signed_of_le h (le_foldl_shift hpos ds _))
      rw [← shift, IntTy.fit?_of_not_holds hnext, IntTy.fit?_of_not_holds hlast]
      rfl

/-! ## Figures -/

/-- The figures of the bases, in the order of their values. -/
def figures : Text := "0123456789abcdefghijklmnopqrstuvwxyz".toList

/-- The value of a figure of a base, letters in either case. -/
def figureValue? (radix : Nat) (c : Char) : Option Nat := (figures.take radix).idxOf? c.toLower

def isFigure (radix : Nat) (c : Char) : Bool := (figureValue? radix c).isSome

/-- The number that figures write, the first of them with the greatest weight. -/
def magnitude (radix : Nat) (figs : Text) : Nat :=
  Nat.ofDigits radix (figs.reverse.map fun c => (figureValue? radix c).getD 0)

/-- The sign at the front of a text, if there may be one. -/
def signOf (k : Integer) (t : Text) : Text :=
  if k.allowSign then (t.take 1).filter (fun c => c == '+' || c == '-') else []

/-- The characters at the front of a text that pass the test, at most `limit`. -/
def leading (p : Char → Bool) (limit : Option Nat) (t : Text) : Text :=
  match limit with
  | some most => (t.takeWhile p).take most
  | none => t.takeWhile p

/-- The figures behind the sign, at most as many as the terminal takes. -/
def figuresOf (k : Integer) (t : Text) : Text :=
  leading (isFigure k.radix) k.maxDigits (t.drop (k.signOf t).length)

/-- The number that the sign and the figures write. -/
def numberOf (k : Integer) (t : Text) : Int :=
  signed (k.signOf t == ['-']) (magnitude k.radix (k.figuresOf t))

/-- The ranges of digits and letters give a figure its place in the list. -/
theorem digitValue?_eq_figureValue? (radix : Nat) (c : Char) :
    digitValue? radix c = figureValue? radix c := by
  have hall : digitValue? 36 c = figures.idxOf? c.toLower := by
    by_cases hc : c.toNat < 128
    · exact forall_ascii (P := fun c => digitValue? 36 c = figures.idxOf? c.toLower)
        (by decide +kernel) hc
    · -- beyond ASCII there are no figures
      have hdigit : digitValue? 36 c = none := by
        refine Option.eq_none_iff_forall_ne_some.mpr fun d hd => hc ?_
        have hle : c.toNat ≤ 127 := UInt32.le_iff_toNat_le.mp
          (Char.utf8Size_eq_one_iff.mp (utf8Size_of_digitValue? hd))
        omega
      have hfigures : figures.all (fun a => a.toNat < 128) = true := by decide +kernel
      have hfigure : c ∉ figures := fun hmem =>
        hc (of_decide_eq_true (List.all_eq_true.mp hfigures c hmem))
      rw [hdigit, toLower_of_not_ascii (Nat.le_of_not_lt hc), List.idxOf?_eq_none_iff.mpr hfigure]
  rw [digitValue?_eq, hall, figureValue?]
  exact (List.findIdx?_take.trans (Option.bind_guard _ _)).symm

theorem figureValue?_toLower (radix : Nat) (c : Char) :
    figureValue? radix c.toLower = figureValue? radix c := by
  rw [figureValue?, toLower_toLower, figureValue?]

theorem figureValue?_lt {radix d : Nat} {c : Char} (h : figureValue? radix c = some d) :
    d < 36 := by
  obtain ⟨hd, -⟩ := List.idxOf?_eq_some_iff.mp h
  have hlen : (figures.take radix).length ≤ figures.length := (List.take_prefix _ _).length_le
  have h36 : figures.length = 36 := by decide
  omega

theorem digitRun_eq (radix : Nat) (limit : Option Nat) (t : Text) :
    digitRun radix limit t =
      (leading (isFigure radix) limit t).map fun c => (figureValue? radix c).getD 0 := by
  fun_induction digitRun radix limit t with
  | case1 => simp [leading]
  | case2 limit => cases limit <;> simp [leading]
  | case3 limit c r hlimit d hd ih =>
    rw [digitValue?_eq_figureValue?] at hd
    have hfig : isFigure radix c = true := by rw [isFigure, hd]; rfl
    rw [ih]
    cases limit with
    | none => simp [leading, hfig, hd]
    | some most =>
      cases most with
      | zero => exact absurd rfl hlimit
      | succ most => simp [leading, hfig, hd]
  | case4 limit c r hlimit hd =>
    rw [digitValue?_eq_figureValue?] at hd
    have hfig : isFigure radix c = false := by rw [isFigure, hd]; rfl
    cases limit <;> simp [leading, hfig]

theorem magnitude_eq_foldl (radix : Nat) (figs : Text) :
    magnitude radix figs =
      (figs.map fun c => (figureValue? radix c).getD 0).foldl (shift radix) 0 := by
  rw [magnitude, Nat.ofDigits_eq_foldr, List.map_reverse, List.foldr_reverse]
  rfl

/-! ## What a scan takes -/

theorem scanDigits_eq (hpos : 0 < k.radix) (hradix : k.radix ≤ 36) (t : Text) :
    let figs := leading (isFigure k.radix) k.maxDigits t
    let v := signed negative (magnitude k.radix figs)
    k.scanDigits negative t =
      if k.minDigits ≤ figs.length ∧ k.ty.holds v = true then some (figs.length, v) else none := by
  intro figs v
  have hrun : digitRun k.radix k.maxDigits t = figs.map fun c => (figureValue? k.radix c).getD 0 :=
    digitRun_eq ..
  have hsmall : ∀ d ∈ digitRun k.radix k.maxDigits t, d ≤ 36 := by
    rw [hrun]
    intro d hd
    obtain ⟨c, -, rfl⟩ := List.mem_map.mp hd
    cases hc : figureValue? k.radix c with
    | none => exact Nat.zero_le _
    | some d => exact Nat.le_of_lt (figureValue?_lt hc)
  have hzero : k.ty.holds (signed negative 0) = true := by
    cases negative <;> exact k.ty.holds_small (Nat.zero_le 36)
  have hfold := foldlM_step hpos hradix _ hsmall 0 hzero
  have hstart : signed negative 0 = 0 := by cases negative <;> rfl
  rw [hstart, hrun, ← magnitude_eq_foldl] at hfold
  simp only [scanDigits, hrun, List.length_map, hfold]
  by_cases hmin : k.minDigits ≤ figs.length
  · rw [if_neg (Nat.not_lt.mpr hmin)]
    by_cases hv : k.ty.holds v = true
    · rw [IntTy.fit?_of_holds hv, if_pos ⟨hmin, hv⟩, Option.map_some]
    · rw [IntTy.fit?_of_not_holds hv, if_neg fun h => hv h.2, Option.map_none]
  · rw [if_pos (Nat.not_le.mp hmin), if_neg fun h => hmin h.1]

theorem signOf_cons (k : Integer) (c : Char) (r : Text) :
    k.signOf (c :: r) = if k.allowSign = true ∧ (c = '+' ∨ c = '-') then [c] else [] := by
  rw [signOf]
  cases k.allowSign <;> simp [List.filter_cons]

theorem signOf_append_drop (k : Integer) (t : Text) :
    k.signOf t ++ t.drop (k.signOf t).length = t := by
  cases t with
  | nil => simp [signOf]
  | cons c r =>
    rw [signOf_cons]
    split <;> rfl

/-- The digits are behind the sign. -/
theorem scan_eq_scanDigits (k : Integer) (t : Text) :
    k.scan t = (k.scanDigits (k.signOf t == ['-']) (t.drop (k.signOf t).length)).map
      fun (len, v) => ((k.signOf t).length + len, v) := by
  cases t with
  | nil => simp [scan, signOf]
  | cons c r =>
    rw [scan_cons, signOf_cons]
    by_cases hminus : k.allowSign = true ∧ c = '-'
    · obtain ⟨hsign, rfl⟩ := hminus
      simp [hsign, Nat.add_comm]
    by_cases hplus : k.allowSign = true ∧ c = '+'
    · obtain ⟨hsign, rfl⟩ := hplus
      simp [hsign, Nat.add_comm]
    · have hnone : ¬ (k.allowSign = true ∧ (c = '+' ∨ c = '-')) := by tauto
      simp [hminus, hplus, hnone]

/-- A scan takes the sign and the figures if they write a number of the type, with enough of
    them. -/
theorem scan_eq (hpos : 0 < k.radix) (hradix : k.radix ≤ 36) (t : Text) :
    k.scan t =
      if k.minDigits ≤ (k.figuresOf t).length ∧ k.ty.holds (k.numberOf t) = true then
        some ((k.signOf t ++ k.figuresOf t).length, k.numberOf t)
      else none := by
  rw [scan_eq_scanDigits, scanDigits_eq hpos hradix]
  simp only [figuresOf, numberOf, List.length_append]
  split <;> rfl

/-! ## What is taken -/

theorem utf8Size_of_isFigure {radix : Nat} {c : Char} (h : isFigure radix c = true) :
    c.utf8Size = 1 := by
  obtain ⟨d, hd⟩ := Option.isSome_iff_exists.mp h
  exact utf8Size_of_digitValue? ((digitValue?_eq_figureValue? radix c).trans hd)

theorem leading_prefix (p : Char → Bool) (limit : Option Nat) (t : Text) :
    leading p limit t <+: t := by
  cases limit with
  | none => exact List.takeWhile_prefix p
  | some most => exact (List.take_prefix most _).trans (List.takeWhile_prefix p)

theorem mem_leading {p : Char → Bool} {limit : Option Nat} {t : Text} :
    ∀ c ∈ leading p limit t, p c = true := by
  intro c hc
  have hrun : c ∈ t.takeWhile p := by
    cases limit with
    | none => exact hc
    | some most => exact List.mem_of_mem_take hc
  exact List.all_eq_true.mp List.all_takeWhile c hrun

theorem byteLength_taken (k : Integer) (t : Text) :
    byteLength (k.signOf t ++ k.figuresOf t) = (k.signOf t ++ k.figuresOf t).length := by
  have hsize : ∀ c ∈ k.signOf t ++ k.figuresOf t, c.utf8Size = 1 := by
    intro c hc
    obtain hc | hc := List.mem_append.mp hc
    · have hmark : c = '+' ∨ c = '-' := by
        rw [signOf] at hc
        split at hc
        · simpa using (List.mem_filter.mp hc).2
        · cases hc
      obtain rfl | rfl := hmark <;> rfl
    · exact utf8Size_of_isFigure (mem_leading c hc)
  have hnarrow : Narrow (k.signOf t ++ k.figuresOf t) (k.signOf t ++ k.figuresOf t).length :=
    ⟨Nat.le_refl _, fun c hc => hsize c (List.mem_of_mem_take hc)⟩
  simpa only [List.take_length] using hnarrow.byteLength_take

/-- What is taken stands at the front of the text. -/
theorem taken_append_drop (k : Integer) (t : Text) :
    (k.signOf t ++ k.figuresOf t) ++ t.drop (k.signOf t ++ k.figuresOf t).length = t := by
  have hfigs : k.figuresOf t <+: t.drop (k.signOf t).length := leading_prefix ..
  rw [List.length_append, ← List.drop_drop, List.append_assoc,
    List.prefix_iff_eq_append.mp hfigs, signOf_append_drop]

/-! ## Writing -/

/-- The figure for a value. -/
def figureOf (d : Nat) : Char := figures.getD d '0'

/-- A number in a base, with zeros in front if it has less figures than asked for. -/
def numeral (radix width m : Nat) : Text :=
  ((Nat.digits radix m).reverse.map figureOf).leftpad width '0'

/-- A number as the terminal reads it: a sign if it is negative, and at least as many figures as the
    terminal asks for, or one. -/
def written (k : Integer) (v : Int) : Text :=
  (if v < 0 then ['-'] else []) ++ numeral k.radix (max 1 k.minDigits) v.natAbs

theorem figureValue?_figureOf {radix d : Nat} (hradix : radix ≤ 36) (hd : d < radix) :
    figureValue? radix (figureOf d) = some d := by
  have hall : ∀ d : Fin 36, digitValue? 36 (figureOf d) = some d.val := by decide +kernel
  rw [← digitValue?_eq_figureValue?, digitValue?_eq, hall ⟨d, Nat.lt_of_lt_of_le hd hradix⟩]
  simp [Option.filter, hd]

theorem isFigure_figureOf {radix d : Nat} (hradix : radix ≤ 36) (hd : d < radix) :
    isFigure radix (figureOf d) = true := by
  rw [isFigure, figureValue?_figureOf hradix hd]
  rfl

/-- Letters of either case are the same figures. -/
theorem isFigure_toLower (radix : Nat) (c : Char) :
    isFigure radix c.toLower = isFigure radix c := by
  rw [isFigure, figureValue?_toLower, isFigure]

theorem magnitude_toLower (radix : Nat) (figs : Text) :
    magnitude radix (figs.map Char.toLower) = magnitude radix figs := by
  simp only [magnitude, ← List.map_reverse, List.map_map, Function.comp_def, figureValue?_toLower]

section Numerals

variable {radix : Nat} (htwo : 2 ≤ radix) (hradix : radix ≤ 36)

include htwo hradix

theorem isFigure_of_mem_numeral (width m : Nat) :
    ∀ c ∈ numeral radix width m, isFigure radix c = true := by
  intro c hc
  obtain hc | hc := List.mem_append.mp hc
  · obtain ⟨-, rfl⟩ := List.mem_replicate.mp hc
    exact isFigure_figureOf hradix (d := 0) (by omega)
  · obtain ⟨d, hd, rfl⟩ := List.mem_map.mp hc
    exact isFigure_figureOf hradix (Nat.digits_lt_base htwo (List.mem_reverse.mp hd))

/-- The figures of a number write that number, zeros in front do not count. -/
theorem magnitude_numeral (width m : Nat) : magnitude radix (numeral radix width m) = m := by
  have hzero : (figureValue? radix '0').getD 0 = 0 := by
    rw [show '0' = figureOf 0 from rfl, figureValue?_figureOf hradix (by omega)]
    rfl
  have hdigits : (Nat.digits radix m).map (fun d => (figureValue? radix (figureOf d)).getD 0) =
      Nat.digits radix m := by
    refine List.map_congr_left (g := id) (fun d hd => ?_) |>.trans (List.map_id _)
    rw [figureValue?_figureOf hradix (Nat.digits_lt_base htwo hd)]
    rfl
  rw [magnitude, numeral, List.leftpad, List.reverse_append, ← List.map_reverse,
    List.reverse_reverse, List.map_append, List.map_map, List.reverse_replicate,
    List.map_replicate, hzero, Nat.ofDigits_append_replicate_zero]
  exact (congrArg _ hdigits).trans (Nat.ofDigits_digits radix m)

end Numerals

/-- Signs are no figures. -/
theorem not_isFigure_sign (radix : Nat) {c : Char} (hc : c = '+' ∨ c = '-') :
    isFigure radix c = false := by
  have hnone : digitValue? 36 c = none := by obtain rfl | rfl := hc <;> decide
  rw [isFigure, ← digitValue?_eq_figureValue?, digitValue?_eq, hnone]
  rfl

theorem leading_append {p : Char → Bool} {limit : Option Nat} {figs after : Text}
    (hfigs : ∀ c ∈ figs, p c = true) (hafter : Avoids p after)
    (hmost : ∀ most, limit = some most → figs.length ≤ most) :
    leading p limit (figs ++ after) = figs := by
  cases limit with
  | none => exact takeWhile_append_of_avoids hfigs hafter
  | some most =>
    rw [leading, takeWhile_append_of_avoids hfigs hafter, List.take_of_length_le (hmost most rfl)]

/-- What a number was written with is taken again, letters in either case, and it writes that
    number. -/
theorem taken_of_written (htwo : 2 ≤ k.radix) (hradix : k.radix ≤ 36) {v : Int} {w after : Text}
    (hsign : v < 0 → k.allowSign = true)
    (hmost : ∀ most, k.maxDigits = some most →
      (numeral k.radix (max 1 k.minDigits) v.natAbs).length ≤ most)
    (hw : w.map Char.toLower = k.written v) (hafter : Avoids (isFigure k.radix) after) :
    k.signOf (w ++ after) ++ k.figuresOf (w ++ after) = w ∧ k.numberOf (w ++ after) = v ∧
      k.minDigits ≤ (k.figuresOf (w ++ after)).length := by
  obtain ⟨s, figs, rfl, hs, hfigs⟩ := List.map_eq_append_iff.mp hw
  have hlen : figs.length = (numeral k.radix (max 1 k.minDigits) v.natAbs).length := by
    rw [← hfigs, List.length_map]
  have hwidth : max 1 k.minDigits ≤ figs.length := by
    rw [hlen, numeral, List.length_leftpad]
    exact Nat.le_max_left _ _
  have hall : ∀ c ∈ figs, isFigure k.radix c = true := by
    intro c hc
    rw [← isFigure_toLower]
    exact isFigure_of_mem_numeral htwo hradix _ _ _ (hfigs ▸ List.mem_map_of_mem hc)
  have hmark : s = if v < 0 then ['-'] else [] := by
    by_cases hv : v < 0
    · rw [if_pos hv] at hs ⊢
      obtain ⟨c, rfl, hc⟩ := List.map_eq_singleton_iff.mp hs
      rw [(toLower_eq_mark (by decide) c).mp hc]
    · rw [if_neg hv] at hs ⊢
      exact List.map_eq_nil_iff.mp hs
  have hsignOf : k.signOf (s ++ (figs ++ after)) = s := by
    have hne : figs ≠ [] := List.ne_nil_of_length_pos (by omega)
    obtain ⟨c, r, rfl⟩ := List.exists_cons_of_ne_nil hne
    rw [hmark]
    split
    · rename_i hv
      rw [List.cons_append, signOf_cons, if_pos ⟨hsign hv, .inr rfl⟩]
    · rw [List.nil_append, List.cons_append, signOf_cons, if_neg]
      rintro ⟨-, hc⟩
      have hfig := hall c List.mem_cons_self
      rw [not_isFigure_sign _ hc] at hfig
      cases hfig
  have hfiguresOf : k.figuresOf (s ++ (figs ++ after)) = figs := by
    rw [figuresOf, hsignOf, List.drop_left]
    exact leading_append hall hafter fun most h => hlen ▸ hmost most h
  rw [List.append_assoc, numberOf, hsignOf, hfiguresOf]
  refine ⟨rfl, ?_, by omega⟩
  rw [← magnitude_toLower, hfigs, magnitude_numeral htwo hradix, hmark]
  by_cases hv : v < 0
  · rw [if_pos hv]
    change -(v.natAbs : Int) = v
    omega
  · rw [if_neg hv]
    change (v.natAbs : Int) = v
    omega

/-! ## Parsing -/

/-- A terminal for integers takes, behind what is skipped, a sign if there may be one, and the
    figures of the base, letters in either case, at most as many as allowed. It matches exactly if
    there are enough of them and the number that they write is one of the type, and then that is its
    value; otherwise the cursor is back where it was. So every number of the type is read back from
    its own writing. -/
theorem parse_exact (k : Integer) (htwo : 2 ≤ k.radix) (hradix : k.radix ≤ 36) (env : Env)
    (n : Nat) (ctx : Ctx) (st st1 : State)
    (hskip : Node.skipOver env (parse env n) ctx st = .ok st1) :
    (let t := st1.cursor.rest
      let taken := k.signOf t ++ k.figuresOf t
      parse env (n + 1) (.terminal (.integer k)) ctx st =
        if k.minDigits ≤ (k.figuresOf t).length ∧
            k.ty.lowest ≤ k.numberOf t ∧ k.numberOf t ≤ k.ty.highest then
          .matched (.int (k.numberOf t))
            (st1.moveTo ⟨st1.offset + byteLength taken, t.drop taken.length⟩)
        else .failed (st1.moveTo st.cursor)) ∧
    ∀ (v : Int) (w after : Text), k.ty.lowest ≤ v → v ≤ k.ty.highest →
      (v < 0 → k.allowSign = true) →
      (∀ most, k.maxDigits = some most →
        (numeral k.radix (max 1 k.minDigits) v.natAbs).length ≤ most) →
      w.map Char.toLower = k.written v → Avoids (isFigure k.radix) after →
      st1.cursor.rest = w ++ after →
      parse env (n + 1) (.terminal (.integer k)) ctx st =
        .matched (.int v) (st1.moveTo ⟨st1.offset + byteLength w, after⟩) := by
  have hscan := scan_eq (k := k) (by omega) hradix st1.cursor.rest
  simp only [IntTy.holds_iff] at hscan
  have hmatch (h : k.minDigits ≤ (k.figuresOf st1.cursor.rest).length ∧
      k.ty.lowest ≤ k.numberOf st1.cursor.rest ∧ k.numberOf st1.cursor.rest ≤ k.ty.highest) :
      parse env (n + 1) (.terminal (.integer k)) ctx st =
        .matched (.int (k.numberOf st1.cursor.rest)) (st1.moveTo ⟨st1.offset +
            byteLength (k.signOf st1.cursor.rest ++ k.figuresOf st1.cursor.rest),
          st1.cursor.rest.drop
            (k.signOf st1.cursor.rest ++ k.figuresOf st1.cursor.rest).length⟩) := by
    refine parse_terminal_of_some hskip ?_ (k.taken_append_drop _).symm rfl
    rw [Terminal.scan, hscan, if_pos h, byteLength_taken]
    rfl
  refine ⟨?_, ?_⟩
  · intro t taken
    split
    · rename_i h
      exact hmatch h
    · rename_i h
      refine parse_terminal_of_none hskip ?_
      rw [Terminal.scan, hscan, if_neg h]
      rfl
  · intro v w after hlow hhigh hsign hmost hw hafter hrest
    obtain ⟨htaken, hnumber, hmin⟩ := taken_of_written htwo hradix hsign hmost hw hafter
    rw [hrest, hnumber, htaken, List.drop_left] at hmatch
    exact hmatch ⟨hmin, hlow, hhigh⟩

/-- The least number of a byte is read back, and the one below it is refused. -/
theorem parse_exact_least :
    let k : Integer := { ty := .i8, radix := 36, allowSign := true }
    let space : Grammar := .terminal (.char (.named .space))
    let start (t : Text) : State := { cursor := .start t }
    parse (.of " -3K;".toList fun _ => none) 2 (.terminal (.integer k)) { skipper := some space }
        (start " -3K;".toList) = .matched (.int (-128)) { cursor := ⟨4, ";".toList⟩ } ∧
      parse (.of " -3l;".toList fun _ => none) 2 (.terminal (.integer k)) { skipper := some space }
        (start " -3l;".toList) = .failed (start " -3l;".toList) := by
  intro k space start
  have hread := (parse_exact k (by decide) (by decide) (.of " -3K;".toList fun _ => none) 1
    { skipper := some space } (start " -3K;".toList) { cursor := ⟨1, "-3K;".toList⟩ } rfl).2
    (-128) "-3K".toList ";".toList (by decide) (by decide) (fun _ => rfl) nofun
    (by decide +kernel) (avoids_cons.mpr (by decide +kernel)) rfl
  have hrefused := (parse_exact k (by decide) (by decide) (.of " -3l;".toList fun _ => none) 1
    { skipper := some space } (start " -3l;".toList) { cursor := ⟨1, "-3l;".toList⟩ } rfl).1
  exact ⟨hread, hrefused.trans (if_neg (by decide +kernel))⟩

end Integer

end Peg
