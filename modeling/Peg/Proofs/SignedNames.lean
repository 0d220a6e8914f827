/-
  Peg.Proofs.SignedNames

  A sign in front of a known name. A factor looks for a name first, but at a sign
  there is none, and next it looks for a number: that takes the sign, and with it a
  word for infinity or not-a-number which stands directly behind the sign, even if
  the word is only the front of a name. So the names that start like such a word
  are those that a sign runs into. A sign in front of any other name, and one with
  white space behind it, is applied to the value of the name.
-/
import Peg.Proofs.CalculatorComplete
import Peg.Proofs.LongestNumeral

namespace Peg

open Text

-- ============================================================================
-- Words behind a sign
-- ============================================================================

namespace Real

/-- The longest word for a number that the text starts with. -/
structure LongestWord (w t : Text) : Prop where
  front : w <+: t
  word : IsWord w
  longest : ∀ v, v <+: t → IsWord v → v.length ≤ w.length

theorem isSign_singleton {o : Char} (h : o = '-' ∨ o = '+') : IsSign [o] := by
  rcases h with rfl | rfl
  · exact .inr (.inr rfl)
  · exact .inr (.inl rfl)

theorem LooksNumeric.word {t : Text} (h : LooksNumeric t) : ∃ w r, t = w ++ r ∧ IsWord w := by
  refine ⟨t.take 3, t.drop 3, (List.take_append_drop 3 t).symm, ?_⟩
  rw [IsWord, List.map_take]
  rcases h with hinf | hnan
  · have hfront : "inf".toList = (t.map Char.toLower).take 3 := List.prefix_iff_eq_take.mp hinf
    rw [← hfront]
    decide
  · have hfront : "nan".toList = (t.map Char.toLower).take 3 := List.prefix_iff_eq_take.mp hnan
    rw [← hfront]
    decide

/-- Where a text starts like a word for a number, a scan takes the longest one behind a sign. -/
theorem LooksNumeric.scan_sign {t : Text} (h : LooksNumeric t) :
    ∃ w r, t = w ++ r ∧ LongestWord w t ∧
      ∀ o, o = '-' ∨ o = '+' → scan (o :: t) = some (o :: w).length := by
  obtain ⟨b, r, rfl, hb⟩ := h.word
  obtain ⟨n, hn, -⟩ := le_findSome?_words hb r
  obtain ⟨v, hv, hscan⟩ := List.exists_of_findSome?_eq_some hn
  obtain ⟨hnarrow, hlower⟩ := scanAscii_take (word_ascii v hv) hscan
  have hlen : ((b ++ r).take n).length = n := by
    rw [List.length_take, Nat.min_eq_left hnarrow.1]
  refine ⟨_, _, (List.take_append_drop n (b ++ r)).symm, ⟨List.take_prefix _ _, ?_, ?_⟩, ?_⟩
  · rw [IsWord, hlower]
    exact List.mem_map_of_mem hv
  · rintro u ⟨r', hu⟩ hword
    obtain ⟨m, hm, hle⟩ := le_findSome?_words hword r'
    rw [hu, hn] at hm
    cases hm
    rwa [hlen]
  · intro o ho
    rw [scan, Calculator.signCount_cons _ (isSign_singleton ho)]
    simp only [List.drop_succ_cons, List.drop_zero, hn, List.length_cons, hlen, Nat.add_comm]

end Real

namespace Calculator

-- ============================================================================
-- Texts of one factor
-- ============================================================================

section Factors

variable {env : Env} {n : Nat} {c c1 : Cursor} {x : Float} {operand : Rule} {op op' : Char}
  {f f' : Float → Float → Float}

/-- A chain of one operand is taken as the operand is, in front of neither operator. -/
theorem chained_single {r : Rule} (hr : Fills env r (chained operand op f op' f'))
    (hty : operand.ty = .double) (hn : 9 ≤ n) (hc : c.In env.source) (hc1 : c1.In env.source)
    (hop : Avoids (· == op) (c1.across isSpace).rest)
    (hop' : Avoids (· == op') (c1.across isSpace).rest)
    (h : ∀ m, n = m + 4 → CallTakes env operand m c x c1) : CallTakes env r n c x c1 := by
  refine callTakes_of_body hr (by omega) fun m hm => ?_
  refine chained_ends (.inl (by omega)) fun j hj => ?_
  refine combine_updates (.inl (by omega)) hc.across fun i hi => ?_
  -- there is a round left to see that no operator follows
  have hlen := hc1.length
  obtain ⟨N, hN⟩ : ∃ N, byteLength env.source + 1 - c1.offset = N + 1 :=
    ⟨byteLength env.source - c1.offset, by omega⟩
  rw [Cursor.across_across]
  refine (h i (by omega) _ _ hc.across Cursor.across_across).mono ?_ id id
  rintro _ _ ⟨rfl, rfl⟩
  rw [hN]
  exact chainRound_over hty (by omega) hc1 hop hop' ⟨rfl, rfl⟩

variable {k : Calculator} {source : Text}

/-- A factor in front of no operator is an expression. -/
theorem factor_alone (hn : 13 ≤ n) (hc : c.In source) (hc1 : c1.In source)
    (hstop : Avoids ['+', '-', '*', '/'].contains (c1.across isSpace).rest)
    (h : ∀ m, n = m + 8 → CallTakes (k.program.env source) factorRule m c x c1) :
    CallTakes (k.program.env source) expressionRule n c x c1 := by
  have hnot (o : Char) (ho : o ∈ ['+', '-', '*', '/']) :
      Avoids (· == o) (c1.across isSpace).rest :=
    hstop.mono fun d hd => by simpa [eq_of_beq hd] using ho
  refine chained_single (expression_fills k source) rfl (by omega) hc hc1 (hnot '+' (by decide))
    (hnot '-' (by decide)) fun m hm => ?_
  exact chained_single (term_fills k source) rfl (by omega) hc hc1 (hnot '*' (by decide))
    (hnot '/' (by decide)) fun j hj => h j (by omega)

theorem valueOf_of_not_full {r : Program.Run} (hfail : r.result.failure = none)
    (hmatched : r.result.matched = true) (hfull : r.result.isFull = false) :
    valueOf r = .error (.trailing r.result.position) := by
  simp [valueOf, hfail, hmatched, hfull]

/-- A run that ends behind white space has a value if nothing is left there. -/
theorem valueOf_report {c : Cursor} {st : State} (hc : c.In source) (hcursor : st.cursor = c)
    (hfail : st.failure = none) :
    valueOf (Program.report source true (.double x) st) =
      if c.rest = [] then .ok x else .error (.trailing c.offset) := by
  subst hcursor
  split
  · rename_i hnil
    have hlen := hc.length
    rw [hnil, byteLength_nil, Nat.add_zero] at hlen
    refine valueOf_eq_ok.mpr ⟨by simpa [Program.report] using hfail, rfl, ?_, rfl⟩
    simpa [ParseResult.isFull, Program.report] using hlen
  · rename_i hmore
    refine valueOf_of_not_full (by simpa [Program.report] using hfail) rfl ?_
    refine Bool.eq_false_iff.mpr fun hfull => hmore ?_
    exact hc.rest_eq_nil (by simpa [ParseResult.isFull, Program.report] using hfull)

theorem evaluate_of_settles {result : Except Error Float}
    (h : Settles (k.program.run {} .double (.double 0) source) (valueOf · = result) noHalt) :
    k.evaluate (String.ofList source) = result := by
  rw [evaluate, String.toList_ofList]
  cases hres : k.program.run {} .double (.double 0) source with
  | error hlt =>
    rw [hres] at h
    exact h.elim
  | ok r =>
    rw [hres] at h
    exact h

/-- The value of an expression, or where it ends if it leaves more than white space. -/
theorem evaluate_of_takes {taken rest : Text}
    (h : CallTakes (k.program.env (taken ++ rest)) expressionRule
      (k.program.fuel (taken ++ rest)) (.start (taken ++ rest)) x
      ((Cursor.start (taken ++ rest)).past taken rest)) :
    k.evaluate (String.ofList (taken ++ rest)) =
      if rest.dropWhile isSpace = [] then .ok x
      else .error (.trailing (byteLength (taken ++ rest.takeWhile isSpace))) := by
  have hin : (Cursor.start (taken ++ rest)).In (taken ++ rest) := Cursor.start_in _
  have hend : ((Cursor.start (taken ++ rest)).past taken rest).In (taken ++ rest) := hin.past rfl
  have hoffset : (((Cursor.start (taken ++ rest)).past taken rest).across isSpace).offset =
      byteLength (taken ++ rest.takeWhile isSpace) := by
    rw [byteLength_append]
    simp [Cursor.across, Cursor.start]
  refine evaluate_of_settles (runWithin_settles ?_)
  refine (h none _ hin rfl _ rfl rfl).mono ?_ ?_ fun _ h => h
  · rintro w st ⟨hfail, -, y, rfl, hy, hc⟩
    obtain rfl : x = y := hy.symm
    have hfuel := le_fuel k.program (taken ++ rest)
    refine (skipOver_space none (.inl (by omega)) (hc ▸ hend)).mono ?_ fun _ h => h
    rintro _ rfl
    have hslot : Value.merge .double k.program.grammar.ty (.double 0) (.double x) = .double x :=
      merge_double x
    have hvalue := @valueOf_report x _ _ (st.moveTo (st.cursor.across isSpace)) hend.across
      (by rw [State.moveTo_cursor, hc]) hfail
    rw [hoffset] at hvalue
    rw [hslot]
    exact hvalue
  · rintro st ⟨-, -, hplain, hrecorded⟩
    by_cases hfail : st.failure = none
    · exact (hplain hfail).elim
    · exact (hrecorded hfail).elim

/-- A text of one factor, and what is left behind it if no operator follows. -/
theorem evaluate_factor {taken rest : Text}
    (hstop : Avoids ['+', '-', '*', '/'].contains (rest.dropWhile isSpace))
    (h : ∀ m, k.program.fuel (taken ++ rest) = m + 8 →
      CallTakes (k.program.env (taken ++ rest)) factorRule m (.start (taken ++ rest)) x
        ((Cursor.start (taken ++ rest)).past taken rest)) :
    k.evaluate (String.ofList (taken ++ rest)) =
      if rest.dropWhile isSpace = [] then .ok x
      else .error (.trailing (byteLength (taken ++ rest.takeWhile isSpace))) := by
  have hin : (Cursor.start (taken ++ rest)).In (taken ++ rest) := Cursor.start_in _
  have hfuel := le_fuel k.program (taken ++ rest)
  exact evaluate_of_takes (factor_alone (by omega) hin (hin.past rfl) hstop h)

/-- The value of a factor, in any layout. -/
theorem evaluate_laid {g : Factor} {l : Layout} (hl : Laid k.constants g.lexemes l)
    (hx : g.value? k.constants = some x) : k.evaluate (String.ofList l.text) = .ok x := by
  have htakes (m : Nat) (hm : k.program.fuel (l.text ++ []) = m + 8) :
      CallTakes (k.program.env (l.text ++ [])) factorRule m (.start (l.text ++ [])) x
        ((Cursor.start (l.text ++ [])).past l.text []) := by
    have hlen := hl.length_le
    have hfuel := le_fuel k.program (l.text ++ [])
    rw [byteLength_append] at hfuel
    exact factor_complete k _ g x l [] _ m hx hl (Cursor.start_in _) rfl
      (stops_blank (List.forall_mem_nil _)) (by rw [fuelFor]; omega)
  have hvalue := evaluate_factor avoids_nil htakes
  rwa [List.append_nil] at hvalue

end Factors

-- ============================================================================
-- A sign and a name
-- ============================================================================

section Names

variable {constants : Symbols Float} {s b : Text} {o : Char} {v : Float}

theorem laid_name (hs : IsName s) (hv : constants.find? (String.ofList s) = some v) :
    Laid constants [.name s] [joined (.name s)] where
  lexemes := rfl
  valid := List.forall_mem_singleton.mpr ⟨hs, by rw [hv]; rfl⟩
  apart := .singleton _
  signs := .singleton _

/-- A sign and a name are kept apart by white space, or by the first letters of the name. -/
theorem laid_sign_name (hs : IsName s) (hv : constants.find? (String.ofList s) = some v)
    (hb : ∀ c ∈ b, isSpace c = true) (hapart : b = [] → ¬ Real.LooksNumeric s) :
    Laid constants [.sign o, .name s] [joined (.sign o), ⟨b, .name s, hb⟩] where
  lexemes := rfl
  valid := List.forall_mem_cons.mpr ⟨trivial, List.forall_mem_singleton.mpr ⟨hs, by rw [hv]; rfl⟩⟩
  apart := by
    refine List.isChain_pair.mpr ?_
    intro c t _ hblank ht
    obtain rfl : s = t := Lexeme.name.inj ht
    exact hapart hblank
  signs := by
    refine List.isChain_pair.mpr ?_
    intro t _ _ ht
    cases ht

/-- What a name could go on with is neither white space nor an operator. -/
theorem avoids_of_wordChars {t : Text} (h : ∀ c ∈ t, isWordChar c = true) :
    Avoids isSpace t ∧ Avoids ['+', '-', '*', '/'].contains t := by
  cases t with
  | nil => exact ⟨avoids_nil, avoids_nil⟩
  | cons c r =>
    have hc : isWordChar c = true := h c List.mem_cons_self
    refine ⟨avoids_cons.mpr (isSpace_of_runsOn (by simp [runsOn, hc])), avoids_cons.mpr ?_⟩
    refine Bool.eq_false_iff.mpr fun hop => ?_
    have hmem : c ∈ ['+', '-', '*', '/'] := by simpa using hop
    have hnot : ∀ o ∈ ['+', '-', '*', '/'], isWordChar o = false := by simp [isWordChar]
    rw [hnot c hmem] at hc
    cases hc

/-- A sign takes a word for a number with it, and a name that starts with the word is cut. -/
theorem evaluate_sign_word (k : Calculator) {w r : Text} (ho : o = '-' ∨ o = '+')
    (hscan : Real.scan (o :: (w ++ r)) = some (o :: w).length) (hw : Real.IsWord w)
    (hr : ∀ c ∈ r, isWordChar c = true) :
    ∃ x, numberOf? (o :: w) = some x ∧
      k.evaluate (String.ofList (o :: (w ++ r))) =
        if r = [] then .ok x else .error (.trailing (byteLength (o :: w))) := by
  obtain ⟨y, hy⟩ := Option.isSome_iff_exists.mp (Real.read?_word (Real.isSign_singleton ho) hw)
  have hx : numberOf? (o :: w) = some y.toDouble := by
    rw [numberOf?, ← List.singleton_append, hy]
    rfl
  have htakes (m : Nat) (hm : k.program.fuel (o :: w ++ r) = m + 8) :
      CallTakes (k.program.env (o :: w ++ r)) factorRule m (.start (o :: w ++ r)) y.toDouble
        ((Cursor.start (o :: w ++ r)).past (o :: w) r) := by
    have hfuel := le_fuel k.program (o :: w ++ r)
    have hin : (Cursor.start (o :: w ++ r)).In (o :: w ++ r) := Cursor.start_in _
    obtain ⟨hblank, halpha⟩ : isSpace o = false ∧ o.isAlpha = false := by
      rcases ho with rfl | rfl <;> decide
    have hover : (Cursor.start (o :: w ++ r)).across isSpace = Cursor.start (o :: w ++ r) :=
      Cursor.across_of_avoids (avoids_cons.mpr hblank)
    -- there is no name at a sign, and so the number comes next
    refine factor_takes (by omega) hover fun j hj => ?_
    refine name_refuses (by omega) hin hover (avoids_cons.mpr halpha) ?_
    exact numeral_takes (by omega) hin hover rfl hscan hx
  obtain ⟨hspace, hop⟩ := avoids_of_wordChars hr
  have hdrop : r.dropWhile isSpace = r :=
    dropWhile_append_of_avoids (List.forall_mem_nil _) hspace
  have htake : r.takeWhile isSpace = [] :=
    takeWhile_append_of_avoids (List.forall_mem_nil _) hspace
  rw [← hdrop] at hop
  have hvalue := evaluate_factor hop htakes
  rw [hdrop, htake, List.append_nil] at hvalue
  exact ⟨_, hx, hvalue⟩

end Names

/-- A known name has its value. Behind a sign it has the value with the sign, if white space stands
    between the two or the name does not start like a word for a number. If it does, the sign in
    front of the name takes the longest such word with it as a number: what the name goes on with
    is left, and if it goes on with nothing, the value is that of the number. -/
theorem evaluate_signed_name (k : Calculator) {s : Text} {v : Float} (hs : IsName s)
    (hv : k.constants.find? (String.ofList s) = some v) :
    k.evaluate (String.ofList s) = .ok v ∧
    (∀ b, (∀ c ∈ b, isSpace c = true) → (b = [] → ¬ Real.LooksNumeric s) →
      k.evaluate (String.ofList ('-' :: (b ++ s))) = .ok (-v) ∧
      k.evaluate (String.ofList ('+' :: (b ++ s))) = .ok v) ∧
    (Real.LooksNumeric s → ∃ w r, s = w ++ r ∧ Real.LongestWord w s ∧
      ∀ o, o = '-' ∨ o = '+' → ∃ x, numberOf? (o :: w) = some x ∧
        k.evaluate (String.ofList (o :: s)) =
          if r = [] then .ok x else .error (.trailing (byteLength (o :: w)))) := by
  refine ⟨?_, fun b hb hapart => ⟨?_, ?_⟩, fun hlooks => ?_⟩
  · have hname := evaluate_laid (g := .name s) (laid_name hs hv) hv
    simpa [joined, Lexeme.text] using hname
  · have hminus := evaluate_laid (k := k) (g := .minus (.name s)) (x := -v)
      (laid_sign_name hs hv hb hapart) (by rw [Factor.value?, Factor.value?, hv]; rfl)
    simpa [joined, Lexeme.text] using hminus
  · have hplus := evaluate_laid (k := k) (g := .plus (.name s)) (x := v)
      (laid_sign_name hs hv hb hapart) hv
    simpa [joined, Lexeme.text] using hplus
  · obtain ⟨w, r, rfl, hlongest, hscan⟩ := hlooks.scan_sign
    have hr : ∀ c ∈ r, isWordChar c = true := fun c hc =>
      hs.wordChar c (List.mem_append_right _ hc)
    exact ⟨w, r, rfl, hlongest, fun o ho =>
      evaluate_sign_word k ho (hscan o ho) hlongest.word hr⟩

/-- A calculator that knows a name which starts like a word for a number. -/
def infx : Calculator := standard.define "infx" 2.5

theorem isName_infx : IsName "infx".toList :=
  ⟨'i', "nfx".toList, rfl, by decide, by simp [isWordChar]⟩

/-- A blank behind the sign is enough, and a name that starts in another way needs none. -/
theorem evaluate_signed_name_infx :
    IsName "infx".toList ∧ infx.constants.find? "infx" = some 2.5 ∧
      infx.evaluate "infx" = .ok 2.5 ∧ infx.evaluate "- infx" = .ok (-2.5) ∧
      Real.LooksNumeric "infx".toList ∧
      (∃ w r x, "infx".toList = w ++ r ∧ Real.LongestWord w "infx".toList ∧
        numberOf? ('-' :: w) = some x ∧ infx.evaluate "-infx" =
          if r = [] then .ok x else .error (.trailing (byteLength ('-' :: w)))) ∧
      IsName "tau".toList ∧ infx.constants.find? "tau" = some 6.283185307179586 ∧
      infx.evaluate "-tau" = .ok (-6.283185307179586) := by
  have hinfx : infx.constants.find? "infx" = some 2.5 := rfl
  have htau : infx.constants.find? "tau" = some 6.283185307179586 := rfl
  have hname : IsName "tau".toList := ⟨'t', "au".toList, rfl, by decide, by simp [isWordChar]⟩
  have hlooks : Real.LooksNumeric "infx".toList := .inl (by decide)
  have hnot : ¬ Real.LooksNumeric "tau".toList := by simp [Real.LooksNumeric]
  obtain ⟨hbare, hspaced, hcut⟩ := evaluate_signed_name infx isName_infx hinfx
  obtain ⟨w, r, hsplit, hlongest, hsigned⟩ := hcut hlooks
  obtain ⟨x, hx, hvalue⟩ := hsigned '-' (.inl rfl)
  have hblank := hspaced [' '] (List.forall_mem_singleton.mpr rfl) (by simp)
  have hdirect :=
    (evaluate_signed_name infx hname htau).2.1 [] (List.forall_mem_nil _) fun _ => hnot
  exact ⟨isName_infx, hinfx, hbare, hblank.1, hlooks, ⟨w, r, x, hsplit, hlongest, hx, hvalue⟩,
    hname, htau, hdirect.1⟩

/-- A known name that a sign in front of it cuts. -/
theorem evaluate_cuts_signed_name :
    IsName "infx".toList ∧ infx.constants.find? "infx" = some 2.5 ∧
      infx.evaluate "infx" = .ok 2.5 ∧ infx.evaluate "-infx" = .error (.trailing 4) ∧
      infx.evaluate "-infx" ≠ .ok (-2.5) := by
  have hbare := evaluate_laid (k := infx) (g := .name "infx".toList) (laid_name isName_infx rfl) rfl
  have hword : Real.IsWord "inf".toList := by simp [Real.IsWord, Real.words]
  obtain ⟨x, -, hcut⟩ := evaluate_sign_word infx (r := "x".toList) (.inl rfl) (by decide) hword
    (by simp [isWordChar])
  have hcut : infx.evaluate "-infx" = .error (.trailing 4) := hcut
  refine ⟨isName_infx, rfl, hbare, hcut, ?_⟩
  rw [hcut]
  intro he
  cases he

end Calculator

end Peg
