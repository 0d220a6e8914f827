/-
  Peg.Proofs.LinePositions

  Two ways to find the line and the column of a byte offset: the table of the
  whole text, and the text before the offset alone. Cutting a text cuts its lines,
  unless the cut goes through the pair of a carriage return and a line feed: the
  return that is left ends a line of its own. So both ways agree exactly at the
  offsets that split no pair, and at the others the text before the offset already
  has the line that the table has one byte later.
-/
import Peg.Text.Lines

namespace Peg

namespace Text

/-! ## Cuts -/

/-- The offset lies between the carriage return and the line feed of one terminator. -/
def SplitsPair (text : Text) (offset : Nat) : Prop :=
  ∃ before after, text = before ++ '\r' :: '\n' :: after ∧ offset = byteLength before + 1

/-- The one part ends and the other begins with a half of a terminator. -/
def CutsPair (before after : Text) : Prop := before.getLast? = some '\r' ∧ after.head? = some '\n'

theorem CutsPair.cons {before after : Text} (c : Char) (h : CutsPair before after) :
    CutsPair (c :: before) after := by
  refine ⟨?_, h.2⟩
  rw [List.getLast?_cons, h.1]
  rfl

/-- An offset splits a pair when a cut there does. -/
theorem splitsPair_iff {before after : Text} :
    SplitsPair (before ++ after) (byteLength before) ↔ CutsPair before after := by
  constructor
  · rintro ⟨front, rest, ht, ho⟩
    have hcut : before ++ after = (front ++ ['\r']) ++ '\n' :: rest := by
      rw [ht, List.append_assoc]
      rfl
    obtain ⟨rfl, rfl⟩ := append_inj_of_byteLength hcut (by rw [ho, byteLength_append]; rfl)
    exact ⟨by simp, rfl⟩
  · rintro ⟨hlast, hhead⟩
    obtain ⟨front, rfl⟩ := List.getLast?_eq_some_iff.mp hlast
    obtain ⟨rest, rfl⟩ := List.head?_eq_some_iff.mp hhead
    exact ⟨front, rest, by rw [List.append_assoc]; rfl, by rw [byteLength_append]; rfl⟩

end Text

open Text

namespace LineTable

/-! ## Starts of lines -/

theorem startsFrom_pair (offset : Nat) (r : Text) :
    startsFrom offset ('\r' :: '\n' :: r) = (offset + 2) :: startsFrom (offset + 2) r := by
  rw [startsFrom]

/-- A character that does not begin a pair ends a line or does not. -/
theorem startsFrom_cons {c : Char} {r : Text} (offset : Nat)
    (h : ¬ (c = '\r' ∧ r.head? = some '\n')) :
    startsFrom offset (c :: r) =
      if c = '\n' ∨ c = '\r' then (offset + 1) :: startsFrom (offset + 1) r
      else startsFrom (offset + c.utf8Size) r := by
  rw [startsFrom]
  rintro r' rfl hr
  exact h ⟨rfl, by rw [hr]; rfl⟩

theorem utf8Size_of_terminator {c : Char} (h : c = '\n' ∨ c = '\r') : c.utf8Size = 1 := by
  obtain rfl | rfl := h <;> rfl

theorem byteLength_pair (r : Text) : byteLength ('\r' :: '\n' :: r) = 2 + byteLength r := by
  rw [byteLength_cons, byteLength_cons, ← Nat.add_assoc]
  rfl

/-- Lines start behind the characters before them, and not beyond the text. -/
theorem mem_startsFrom {offset start : Nat} {t : Text} (h : start ∈ startsFrom offset t) :
    offset < start ∧ start ≤ offset + byteLength t := by
  fun_induction startsFrom offset t with
  | case1 => cases h
  | case2 offset r ih =>
    rw [byteLength_pair]
    obtain rfl | h := List.mem_cons.mp h
    · omega
    · have := ih h
      omega
  | case3 offset c r _ hc ih =>
    rw [byteLength_cons, utf8Size_of_terminator hc]
    obtain rfl | h := List.mem_cons.mp h
    · omega
    · have := ih h
      omega
  | case4 offset c r _ _ ih =>
    have := ih h
    rw [byteLength_cons]
    omega

/-- A character that begins no pair does not begin one in front of more text either. -/
theorem not_pair_append {c : Char} {r after : Text} (hr : ∀ s, c = '\r' → r = '\n' :: s → False)
    (h : ¬ CutsPair (c :: r) after) : ¬ (c = '\r' ∧ (r ++ after).head? = some '\n') := by
  rintro ⟨rfl, hhead⟩
  cases r with
  | nil => exact h ⟨rfl, hhead⟩
  | cons d s =>
    cases hhead
    exact hr s rfl rfl

/-- The lines of a text are those of its parts, unless the cut goes through a pair. -/
theorem startsFrom_append {before after : Text} (h : ¬ CutsPair before after) (offset : Nat) :
    startsFrom offset (before ++ after) =
      startsFrom offset before ++ startsFrom (offset + byteLength before) after := by
  fun_induction startsFrom offset before with
  | case1 => rfl
  | case2 offset r ih =>
    rw [List.cons_append, List.cons_append, startsFrom_pair, byteLength_pair, ← Nat.add_assoc,
      ih fun hcut => h (.cons _ (.cons _ hcut)), List.cons_append]
  | case3 offset c r hr hc ih =>
    rw [List.cons_append, startsFrom_cons _ (not_pair_append hr h), if_pos hc, byteLength_cons,
      utf8Size_of_terminator hc, ← Nat.add_assoc, ih fun hcut => h (.cons _ hcut), List.cons_append]
  | case4 offset c r hr hc ih =>
    rw [List.cons_append, startsFrom_cons _ (not_pair_append hr h), if_neg hc, byteLength_cons,
      ← Nat.add_assoc, ih fun hcut => h (.cons _ hcut)]

/-- The lines of a text start behind all that is before it. -/
theorem countP_startsFrom_beyond {offset start : Nat} (h : offset ≤ start) (t : Text) :
    (startsFrom start t).countP (· ≤ offset) = 0 := by
  rw [List.countP_eq_zero]
  intro next hnext
  have := (mem_startsFrom hnext).1
  simp only [decide_eq_true_eq]
  omega

/-- The lines of a text start before all that is behind it. -/
theorem countP_starts_within {t : Text} {offset : Nat} (h : byteLength t ≤ offset) :
    (ofText t).starts.countP (· ≤ offset) = (ofText t).starts.length := by
  rw [List.countP_eq_length]
  intro start hstart
  rw [decide_eq_true_eq]
  obtain rfl | hstart := List.mem_cons.mp hstart
  · exact Nat.zero_le _
  · have := (mem_startsFrom hstart).2
    omega

/-- The lines of `before` and `after` when the cut between them goes through no pair. -/
theorem starts_append {before after : Text} (h : ¬ CutsPair before after) :
    (ofText (before ++ after)).starts =
      (ofText before).starts ++ startsFrom (byteLength before) after := by
  rw [ofText, startsFrom_append h, Nat.zero_add]
  rfl

/-! ## Lines and columns -/

section Places

variable {table : LineTable} {before : Text} {later : List Nat} {offset : Nat}

/-- In a table that has the lines of `before` and others that start behind an offset, the offset is
    in the last line of `before`. -/
theorem lineOf_of_starts (hstarts : table.starts = (ofText before).starts ++ later)
    (hbefore : byteLength before ≤ offset) (hlater : later.countP (· ≤ offset) = 0) :
    table.lineOf offset = (ofText before).starts.length := by
  rw [lineOf, hstarts, List.countP_append, hlater, countP_starts_within hbefore]
  simp [ofText]

/-- Such a table places the offset as the table of `before` does. -/
theorem position_of_starts (hstarts : table.starts = (ofText before).starts ++ later)
    (hbefore : byteLength before ≤ offset) (hlater : later.countP (· ≤ offset) = 0) (text : Text) :
    table.position text offset = (ofText before).position text offset := by
  have hline := lineOf_of_starts hstarts hbefore hlater
  have hline' : (ofText before).lineOf offset = (ofText before).starts.length :=
    lineOf_of_starts (List.append_nil _).symm hbefore rfl
  have hstart : table.startOf? (ofText before).starts.length =
      (ofText before).startOf? (ofText before).starts.length := by
    rw [startOf?, startOf?, hstarts, List.getElem?_append_left (by simp [ofText])]
  rw [position, position, hline, hline', hstart]

end Places

/-- A place where a line starts has column one. -/
theorem position_of_start {t : Text} {earlier : List Nat}
    (hstarts : (ofText t).starts = earlier ++ [byteLength t]) (text : Text) :
    (ofText t).position text (byteLength t) = (earlier.length + 1, 1) := by
  have hline : (ofText t).lineOf (byteLength t) = earlier.length + 1 := by
    rw [lineOf_of_starts (List.append_nil _).symm (Nat.le_refl _) rfl, hstarts]
    simp
  have hstart : (ofText t).startOf? (earlier.length + 1) = some (byteLength t) := by
    rw [startOf?, hstarts]
    simp
  have hslice :
      (slice? text (byteLength t) (min (byteLength t) (byteLength text))).getD [] = [] := by
    rw [slice?]
    split
    · rw [Nat.sub_eq_zero_of_le (Nat.min_le_left ..)]
      cases dropBytes? text (byteLength t) <;> simp [takeBytes?]
    · rfl
  simp only [position, hline, hstart, Option.getD_some, hslice, List.length_nil, Nat.zero_add]

/-- Where no pair is cut, the lines of the text before an offset tell its place. -/
theorem position_append {before after : Text} (h : ¬ CutsPair before after) :
    (ofText (before ++ after)).position (before ++ after) (byteLength before) =
      (ofText before).position (before ++ after) (byteLength before) :=
  position_of_starts (starts_append h) (Nat.le_refl _)
    (countP_startsFrom_beyond (Nat.le_refl _) after) _

/-- A terminator behind a text starts one line more. -/
theorem position_terminated {before terminator : Text} (h : ¬ CutsPair before terminator)
    (hends : startsFrom (byteLength before) terminator = [byteLength (before ++ terminator)])
    (text : Text) :
    (ofText (before ++ terminator)).position text (byteLength (before ++ terminator)) =
      ((ofText before).starts.length + 1, 1) :=
  position_of_start (by rw [starts_append h, hends]) text

/-- In the table of the text, the inside of a pair belongs to the line that the pair ends, and the
    place behind the pair to the next one. -/
theorem position_pair (before after : Text) :
    (ofText (before ++ '\r' :: '\n' :: after)).lineOf (byteLength before + 1) =
        (ofText before).starts.length ∧
      (ofText (before ++ '\r' :: '\n' :: after)).position (before ++ '\r' :: '\n' :: after)
        (byteLength before + 2) = ((ofText before).starts.length + 1, 1) := by
  have hpair : ¬ CutsPair before ['\r', '\n'] := fun h => nomatch h.2
  constructor
  · have hstarts : (ofText (before ++ '\r' :: '\n' :: after)).starts =
        (ofText before).starts ++ startsFrom (byteLength before) ('\r' :: '\n' :: after) :=
      starts_append fun h => nomatch h.2
    refine lineOf_of_starts hstarts (Nat.le_succ _) ?_
    rw [startsFrom_pair, List.countP_cons, countP_startsFrom_beyond (by omega)]
    simp
  · have hcut : ¬ CutsPair (before ++ ['\r', '\n']) after := fun h => by simp [CutsPair] at h
    have hlen : byteLength (before ++ ['\r', '\n']) = byteLength before + 2 := by
      rw [byteLength_append]
      rfl
    have hplace := position_append hcut
    rw [List.append_assoc, List.cons_append, List.cons_append, List.nil_append] at hplace
    rw [← hlen, hplace]
    exact position_terminated hpair (by rw [startsFrom_pair, hlen]; rfl) _

end LineTable

open LineTable

/-- Inside a pair, the text before an offset has one line more already. -/
theorem lineColumn_pair (before after : Text) :
    lineColumn (before ++ '\r' :: '\n' :: after) (byteLength before + 1) =
      ((ofText before).starts.length + 1, 1) := by
  have hcut : ¬ CutsPair before ['\r'] := fun h => nomatch h.2
  have hlen : byteLength (before ++ ['\r']) = byteLength before + 1 := by
    rw [byteLength_append]
    rfl
  have htake : takeBytes? (before ++ '\r' :: '\n' :: after) (byteLength before + 1) =
      some (before ++ ['\r']) :=
    takeBytes?_eq_some_iff.mpr ⟨'\n' :: after, by simp, hlen.symm⟩
  rw [lineColumn, htake, Option.getD_some, ← hlen]
  exact position_terminated hcut (by rw [hlen]; rfl) _

theorem lineColumn_of_not_splitsPair {text : Text} {offset : Nat} (h : ¬ SplitsPair text offset) :
    lineColumn text offset = (ofText text).position text offset := by
  rw [lineColumn]
  cases htake : takeBytes? text offset with
  | none => rfl
  | some before =>
    obtain ⟨after, rfl, rfl⟩ := takeBytes?_eq_some_iff.mp htake
    exact (position_append fun hcut => h (splitsPair_iff.mpr hcut)).symm

/-- The text before an offset gives it the line and column that the table of the whole text gives it
    exactly when the offset splits no pair of a carriage return and a line feed, inside characters
    and beyond the end as well. Otherwise it gives the line and column of the place behind the
    pair. -/
theorem lineColumn_eq_position_iff (text : Text) (offset : Nat) :
    (lineColumn text offset = (ofText text).position text offset ↔ ¬ SplitsPair text offset) ∧
      (SplitsPair text offset →
        lineColumn text offset = (ofText text).position text (offset + 1)) := by
  refine ⟨⟨?_, lineColumn_of_not_splitsPair⟩, ?_⟩
  · rintro h ⟨before, after, rfl, rfl⟩
    -- the lines differ by one
    have hline := congrArg Prod.fst h
    rw [lineColumn_pair, position, (position_pair before after).1] at hline
    omega
  · rintro ⟨before, after, rfl, rfl⟩
    rw [lineColumn_pair, (position_pair before after).2]

/-- Behind the return of the pair, the text before it already counts the second line. -/
theorem lineColumn_eq_position_iff_pair :
    SplitsPair "é\r\nb".toList 3 ∧
      lineColumn "é\r\nb".toList 3 = (ofText "é\r\nb".toList).position "é\r\nb".toList 4 := by
  have hsplits : SplitsPair "é\r\nb".toList 3 := ⟨['é'], ['b'], rfl, rfl⟩
  exact ⟨hsplits, (lineColumn_eq_position_iff "é\r\nb".toList 3).2 hsplits⟩

/-- Between the two characters of the pair the two ways disagree. -/
theorem lineColumn_ne_position :
    lineColumn "\r\n".toList 1 ≠ (ofText "\r\n".toList).position "\r\n".toList 1 := by decide

end Peg
