/-
  Peg.Proofs.LineSplit

  The table of lines against the lines themselves. A text is cut from the left at
  terminators that are as long as they can be, in one way only; `Cut` says what that
  means, without a table. The table of the text then has the starts of these lines,
  tells for every offset which line it is in and how many characters are before it
  on that line, and gives each line back without its terminator.

  Everything is by induction on the cut. What is asked of one line is that nothing
  in it ends a line before its terminator does, so that the table has one start
  behind it (`startsFrom_line`), and that the terminator leaves no half of a pair to
  the next line, so that the starts of the rest are those of the rest alone
  (`startsFrom_append`).
-/
import Peg.Proofs.LinePositions

namespace Peg

open Text

-- ============================================================================
-- Lines
-- ============================================================================

/-- A character that ends a line, alone or in a pair. -/
def endsLine (c : Char) : Bool := c == '\n' || c == '\r'

/-- No character of the text ends a line. -/
def Plain (t : Text) : Prop := ∀ c ∈ t, endsLine c = false

/-- What ends a line: the pair of a carriage return and a line feed, or one of them. -/
def IsTerminator (t : Text) : Prop := t = ['\r', '\n'] ∨ t = ['\n'] ∨ t = ['\r']

/-- A line: what stands on it, and what ends it. Nothing ends the last line of a text. -/
structure Line where
  body : Text
  ending : Text
  deriving DecidableEq, Repr

namespace Line

def text (l : Line) : Text := l.body ++ l.ending

/-- The lines one after the other, with what ends them. -/
def join (lines : List Line) : Text := lines.flatMap text

end Line

/-- The text, cut from the left into lines at terminators that are as long as they can be: none of
    them is the first half of a pair. -/
inductive Cut : Text → List Line → Prop where
  | last {body : Text} (hbody : Plain body) : Cut body [⟨body, []⟩]
  | next {body ending rest : Text} {lines : List Line} (hbody : Plain body)
      (hending : IsTerminator ending) (hlong : ¬ CutsPair ending rest) (h : Cut rest lines) :
      Cut (body ++ ending ++ rest) (⟨body, ending⟩ :: lines)

/-- Where the lines start, if the first of them starts at `offset`. -/
def lineStarts (offset : Nat) : List Line → List Nat
  | [] => []
  | l :: ls => offset :: lineStarts (offset + byteLength l.text) ls

/-- Where the terminators of the lines end, if the first line starts at `offset`. -/
def terminatorEnds (offset : Nat) : List Line → List Nat
  | [] => []
  | l :: ls =>
    let next := offset + byteLength l.text
    if l.ending = [] then terminatorEnds next ls else next :: terminatorEnds next ls

namespace Line

@[simp] theorem join_nil : join [] = [] := rfl

@[simp] theorem join_cons (l : Line) (ls : List Line) : join (l :: ls) = l.text ++ join ls := rfl

end Line

theorem lineStarts_length (offset : Nat) (lines : List Line) :
    (lineStarts offset lines).length = lines.length := by
  induction lines generalizing offset with
  | nil => rfl
  | cons l ls ih => rw [lineStarts, List.length_cons, List.length_cons, ih]

/-- A line starts behind the lines before it. -/
theorem lineStarts_append (offset : Nat) (earlier later : List Line) :
    lineStarts offset (earlier ++ later) =
      lineStarts offset earlier ++ lineStarts (offset + byteLength (Line.join earlier)) later := by
  induction earlier generalizing offset with
  | nil => rfl
  | cons l ls ih =>
    have hlen : offset + byteLength l.text + byteLength (Line.join ls) =
        offset + byteLength (Line.join (l :: ls)) := by
      rw [Line.join_cons, byteLength_append]
      omega
    rw [List.cons_append, lineStarts, lineStarts, ih, hlen, List.cons_append]

-- ============================================================================
-- Fronts of a text
-- ============================================================================

/-- No bytes are no characters. -/
theorem Text.eq_nil_of_byteLength {s : Text} (h : byteLength s = 0) : s = [] := by
  cases s with
  | nil => rfl
  | cons c r =>
    have hpos := c.utf8Size_pos
    rw [byteLength_cons] at h
    omega

/-- The shorter of two fronts of a text is a front of the longer one. -/
theorem Text.append_of_byteLength_le {s t s' t' : Text} (h : s ++ t = s' ++ t')
    (hlen : byteLength s ≤ byteLength s') : ∃ taken, s' = s ++ taken ∧ t = taken ++ t' := by
  rcases List.append_eq_append_iff.mp h with ⟨taken, hs', ht⟩ | ⟨more, hs, ht'⟩
  · exact ⟨taken, hs', ht⟩
  · have hmore : more = [] := by
      apply eq_nil_of_byteLength
      rw [hs, byteLength_append] at hlen
      omega
    subst hmore
    exact ⟨[], by rw [hs, List.append_nil, List.append_nil], ht'.symm⟩

-- ============================================================================
-- Terminators and plain texts
-- ============================================================================

theorem endsLine_iff {c : Char} : endsLine c = true ↔ c = '\n' ∨ c = '\r' := by
  simp [endsLine]

theorem IsTerminator.ne_nil {t : Text} (h : IsTerminator t) : t ≠ [] := by
  rcases h with rfl | rfl | rfl <;> simp

/-- A terminator begins with a character that ends a line. -/
theorem IsTerminator.head {t : Text} (h : IsTerminator t) :
    ∃ c r, t = c :: r ∧ endsLine c = true := by
  rcases h with rfl | rfl | rfl
  · exact ⟨'\r', ['\n'], rfl, rfl⟩
  · exact ⟨'\n', [], rfl, rfl⟩
  · exact ⟨'\r', [], rfl, rfl⟩

/-- In front of a terminator no pair is cut by the end of a plain text. -/
theorem Plain.not_cutsPair {body : Text} (h : Plain body) (after : Text) :
    ¬ CutsPair body after := by
  intro hcut
  have hlast : '\r' ∈ body := List.mem_of_getLast? hcut.1
  have hplain := h '\r' hlast
  exact absurd hplain (by decide)

/-- What is plain at the front of a text ends at its terminator. -/
theorem takeWhile_plain {body ending rest : Text} (hbody : Plain body)
    (hending : IsTerminator ending) :
    (body ++ ending ++ rest).takeWhile (fun c => !endsLine c) = body := by
  obtain ⟨c, r, rfl, hc⟩ := hending.head
  have hall : ∀ d ∈ body, (!endsLine d) = true := by
    intro d hd
    rw [hbody d hd]
    rfl
  rw [List.append_assoc, List.takeWhile_append_of_pos hall, List.cons_append,
    List.takeWhile_cons_of_neg (by simp [hc]), List.append_nil]

theorem takeWhile_of_plain {body : Text} (hbody : Plain body) :
    body.takeWhile (fun c => !endsLine c) = body := by
  induction body with
  | nil => rfl
  | cons c r ih =>
    have hc : endsLine c = false := hbody c List.mem_cons_self
    have hr : Plain r := fun d hd => hbody d (List.mem_cons_of_mem c hd)
    rw [List.takeWhile_cons_of_pos (by simp [hc]), ih hr]

-- ============================================================================
-- Cutting
-- ============================================================================

namespace Cut

variable {t : Text} {l : Line} {lines lines' earlier later : List Line}

theorem ne_nil (h : Cut t lines) : lines ≠ [] := by
  cases h <;> simp

/-- The lines make up the text. -/
theorem join_eq (h : Cut t lines) : Line.join lines = t := by
  induction h with
  | last _ => simp [Line.join, Line.text]
  | next _ _ _ _ ih => rw [Line.join_cons, ih]; rfl

/-- One more plain character at the front of the first line. -/
theorem cons_plain {c : Char} (h : Cut t lines) (hc : endsLine c = false) :
    ∃ lines', Cut (c :: t) lines' := by
  have hplain {body : Text} (hbody : Plain body) : Plain (c :: body) := by
    intro d hd
    rcases List.mem_cons.mp hd with rfl | hd
    · exact hc
    · exact hbody d hd
  rcases h with hbody | ⟨hbody, hending, hlong, hrest⟩
  · exact ⟨_, .last (hplain hbody)⟩
  · exact ⟨_, .next (hplain hbody) hending hlong hrest⟩

/-- Every text can be cut. -/
theorem exists_lines (t : Text) : ∃ lines, Cut t lines := by
  have hnone : Plain [] := fun c hc => absurd hc List.not_mem_nil
  -- the cases are those in which the table looks at a text
  fun_induction LineTable.startsFrom 0 t with
  | case1 => exact ⟨_, .last hnone⟩
  | case2 offset r ih =>
    obtain ⟨lines, h⟩ := ih
    have hlong : ¬ CutsPair ['\r', '\n'] r := fun hcut => absurd hcut.1 (by decide)
    exact ⟨_, .next hnone (.inl rfl) hlong h⟩
  | case3 offset c r hr hc ih =>
    obtain ⟨lines, h⟩ := ih
    have hending : IsTerminator [c] := by
      rcases hc with rfl | rfl
      · exact .inr (.inl rfl)
      · exact .inr (.inr rfl)
    have hlong : ¬ CutsPair [c] r := by
      rintro ⟨hlast, hhead⟩
      obtain ⟨s, rfl⟩ := List.head?_eq_some_iff.mp hhead
      exact hr s (Option.some.inj hlast) rfl
    exact ⟨_, .next hnone hending hlong h⟩
  | case4 offset c r hr hc ih =>
    obtain ⟨lines, h⟩ := ih
    have hplain : endsLine c = false := Bool.eq_false_iff.mpr fun he => hc (endsLine_iff.mp he)
    exact h.cons_plain hplain

/-- The body of the first line is what is plain at the front of the text. -/
theorem takeWhile_eq (h : Cut t (l :: lines)) : t.takeWhile (fun c => !endsLine c) = l.body := by
  rcases h with hbody | ⟨hbody, hending, -, -⟩
  · exact takeWhile_of_plain hbody
  · exact takeWhile_plain hbody hending

/-- Two terminators that are as long as they can be are the same. -/
theorem terminator_unique {ending ending' rest rest' : Text} (h : IsTerminator ending)
    (h' : IsTerminator ending') (hlong : ¬ CutsPair ending rest) (hlong' : ¬ CutsPair ending' rest')
    (he : ending ++ rest = ending' ++ rest') : ending = ending' := by
  -- the only two that begin with the same character are the pair and the return alone
  rcases h with rfl | rfl | rfl
  · rcases h' with rfl | rfl | rfl
    · rfl
    · simp at he
    · have hrest : rest' = '\n' :: rest := by simpa using he.symm
      exact absurd ⟨rfl, by rw [hrest]; rfl⟩ hlong'
  · rcases h' with rfl | rfl | rfl
    · simp at he
    · rfl
    · simp at he
  · rcases h' with rfl | rfl | rfl
    · have hrest : rest = '\n' :: rest' := by simpa using he
      exact absurd ⟨rfl, by rw [hrest]; rfl⟩ hlong
    · simp at he
    · rfl

/-- A text can be cut in one way. -/
theorem unique (h : Cut t lines) (h' : Cut t lines') : lines' = lines := by
  induction h generalizing lines' with
  | @last body hbody =>
    generalize ht : body = u at h'
    rcases h' with hbody' | ⟨hbody', hending, -, -⟩
    · rfl
    · obtain ⟨c, r, rfl, hc⟩ := hending.head
      have hmem : c ∈ body := by simp [ht]
      rw [hbody c hmem] at hc
      cases hc
  | @next body ending rest lines hbody hending hlong h ih =>
    generalize ht : body ++ ending ++ rest = u at h'
    have hfront : (body ++ ending ++ rest).takeWhile (fun c => !endsLine c) = body :=
      takeWhile_plain hbody hending
    rw [ht] at hfront
    rcases h' with hbody' | @⟨body', ending', rest', lines', hbody', hending', hlong', h'⟩
    · obtain ⟨c, r, rfl, hc⟩ := hending.head
      have hmem : c ∈ u := by simp [← ht]
      rw [hbody' c hmem] at hc
      cases hc
    · rw [takeWhile_plain hbody' hending'] at hfront
      obtain rfl := hfront
      have he : ending ++ rest = ending' ++ rest' := by
        rw [List.append_assoc, List.append_assoc] at ht
        exact List.append_cancel_left ht
      obtain rfl := terminator_unique hending hending' hlong hlong' he
      obtain rfl := List.append_cancel_left he
      rw [ih h']

/-- Behind some of its lines a text is cut into the others. -/
theorem drop (h : Cut t (earlier ++ later)) (hlater : later ≠ []) :
    ∃ rest, t = Line.join earlier ++ rest ∧ Cut rest later := by
  induction earlier generalizing t with
  | nil => exact ⟨t, rfl, h⟩
  | cons l ls ih =>
    rw [List.cons_append] at h
    generalize hls : ls ++ later = more at h
    rcases h with - | ⟨-, -, -, h⟩
    · exact absurd (List.append_eq_nil_iff.mp hls).2 hlater
    · rw [← hls] at h
      obtain ⟨rest, rfl, hrest⟩ := ih h
      exact ⟨rest, by simp [Line.text], hrest⟩

end Cut

-- ============================================================================
-- The table of a cut text
-- ============================================================================

namespace LineTable

variable {t : Text} {lines : List Line}

theorem startsFrom_plain {body : Text} (h : Plain body) (offset : Nat) :
    startsFrom offset body = [] := by
  induction body generalizing offset with
  | nil => rfl
  | cons c r ih =>
    have hplain : endsLine c = false := h c List.mem_cons_self
    have hc : ¬ (c = '\n' ∨ c = '\r') := by
      intro he
      rw [endsLine_iff.mpr he] at hplain
      cases hplain
    have hpair : ¬ (c = '\r' ∧ r.head? = some '\n') := fun hp => hc (.inr hp.1)
    rw [startsFrom_cons offset hpair, if_neg hc]
    exact ih (fun d hd => h d (List.mem_cons_of_mem c hd)) _

theorem startsFrom_terminator {ending : Text} (h : IsTerminator ending) (offset : Nat) :
    startsFrom offset ending = [offset + byteLength ending] := by
  rcases h with rfl | rfl | rfl <;> rfl

/-- One line more starts behind a line. -/
theorem startsFrom_line {body ending rest : Text} (hbody : Plain body)
    (hending : IsTerminator ending) (hlong : ¬ CutsPair ending rest) (offset : Nat) :
    startsFrom offset (body ++ ending ++ rest) =
      (offset + byteLength (body ++ ending)) ::
        startsFrom (offset + byteLength (body ++ ending)) rest := by
  have hcut : ¬ CutsPair (body ++ ending) rest := by
    have hends : (body ++ ending).getLast? = ending.getLast? := by
      rcases hending with rfl | rfl | rfl <;> simp
    rintro ⟨hlast, hhead⟩
    exact hlong ⟨hends ▸ hlast, hhead⟩
  have hline : startsFrom offset (body ++ ending) = [offset + byteLength (body ++ ending)] := by
    rw [startsFrom_append (hbody.not_cutsPair ending), startsFrom_plain hbody,
      startsFrom_terminator hending, List.nil_append, byteLength_append, Nat.add_assoc]
  rw [startsFrom_append hcut, hline, List.singleton_append]

/-- The starts of a table increase. -/
theorem startsFrom_sorted (offset : Nat) (t : Text) : (startsFrom offset t).Pairwise (· < ·) := by
  fun_induction startsFrom offset t with
  | case1 => exact .nil
  | case2 offset r ih => exact .cons (fun _ hstart => (mem_startsFrom hstart).1) ih
  | case3 offset c r _ _ ih => exact .cons (fun _ hstart => (mem_startsFrom hstart).1) ih
  | case4 offset c r _ _ ih => exact ih

theorem starts_sorted (t : Text) : (ofText t).starts.Pairwise (· < ·) :=
  .cons (fun _ hstart => (mem_startsFrom hstart).1) (startsFrom_sorted 0 t)

/-- The table of a text has the starts of its lines. -/
theorem startsFrom_of_cut (h : Cut t lines) (offset : Nat) :
    offset :: startsFrom offset t = lineStarts offset lines := by
  induction h generalizing offset with
  | last hbody => rw [startsFrom_plain hbody]; rfl
  | next hbody hending hlong _ ih =>
    rw [startsFrom_line hbody hending hlong, ih]
    rfl

/-- All lines but the first start where a terminator ends. -/
theorem startsFrom_eq_terminatorEnds (h : Cut t lines) (offset : Nat) :
    startsFrom offset t = terminatorEnds offset lines := by
  induction h generalizing offset with
  | last hbody => rw [startsFrom_plain hbody]; rfl
  | next hbody hending hlong _ ih =>
    rw [startsFrom_line hbody hending hlong, ih, terminatorEnds, if_neg hending.ne_nil]
    rfl

theorem starts_of_cut (h : Cut t lines) : (ofText t).starts = lineStarts 0 lines :=
  startsFrom_of_cut h 0

/-- The number of a line is one more than that of the terminators before it. -/
theorem lineOf_eq (t : Text) (offset : Nat) :
    (ofText t).lineOf offset = 1 + (startsFrom 0 t).countP (· ≤ offset) := by
  have hfirst : (ofText t).starts.countP (· ≤ offset) =
      (startsFrom 0 t).countP (· ≤ offset) + 1 := by
    rw [ofText, List.countP_cons_of_pos (by simp)]
  rw [lineOf, hfirst]
  omega

/-- An offset is in the line with as many lines before it as terminators end at or before the
    offset; that line starts at or before the offset. -/
theorem place_of_cut (h : Cut t lines) {base offset : Nat} (hbase : base ≤ offset) :
    ∃ earlier l later, lines = earlier ++ l :: later ∧
      (startsFrom base t).countP (· ≤ offset) = earlier.length ∧
      base + byteLength (Line.join earlier) ≤ offset := by
  induction h generalizing base with
  | @last body hbody =>
    refine ⟨[], ⟨body, []⟩, [], rfl, ?_, hbase⟩
    rw [startsFrom_plain hbody]
    rfl
  | @next body ending rest lines hbody hending hlong _ ih =>
    rw [startsFrom_line hbody hending hlong]
    by_cases hnext : base + byteLength (body ++ ending) ≤ offset
    · obtain ⟨earlier, l, later, rfl, hcount, hle⟩ := ih hnext
      refine ⟨⟨body, ending⟩ :: earlier, l, later, rfl, ?_, ?_⟩
      · rw [List.countP_cons_of_pos (by simpa using hnext), hcount, List.length_cons]
      · rw [Line.join_cons, byteLength_append, ← Nat.add_assoc]
        exact hle
    · -- the lines further on start even later
      have hbeyond := countP_startsFrom_beyond (Nat.le_of_not_le hnext) rest
      refine ⟨[], ⟨body, ending⟩, lines, rfl, ?_, hbase⟩
      rw [List.countP_cons_of_neg (by simpa using hnext), hbeyond]
      rfl

/-- A line of the table starts behind the lines before it. -/
theorem startOf?_of_cut {earlier later : List Line} {l : Line}
    (h : Cut t (earlier ++ l :: later)) :
    (ofText t).startOf? (earlier.length + 1) = some (byteLength (Line.join earlier)) := by
  have hlen : (lineStarts 0 earlier).length = earlier.length := lineStarts_length 0 earlier
  rw [startOf?, if_neg (Nat.succ_ne_zero _), Nat.add_sub_cancel, starts_of_cut h,
    lineStarts_append, ← hlen, List.getElem?_append_right (Nat.le_refl _), Nat.sub_self,
    lineStarts, List.getElem?_cons_zero, Nat.zero_add]

/-- Where the characters of a text are cut, the column counts those since the start of the line. -/
theorem position_of_cut (h : Cut t lines) {before after : Text} {offset : Nat}
    (ht : t = before ++ after) (hbefore : byteLength before = min offset (byteLength t)) :
    ∃ taken, before = Line.join (lines.take ((ofText t).lineOf offset - 1)) ++ taken ∧
      (ofText t).position t offset = ((ofText t).lineOf offset, 1 + taken.length) := by
  obtain ⟨earlier, l, later, rfl, hcount, hle⟩ := place_of_cut h (Nat.zero_le offset)
  obtain ⟨rest, hrest, -⟩ := h.drop (List.cons_ne_nil l later)
  have hline : (ofText t).lineOf offset = earlier.length + 1 := by
    rw [lineOf_eq, hcount, Nat.add_comm]
  have htake : (earlier ++ l :: later).take ((ofText t).lineOf offset - 1) = earlier := by
    rw [hline, Nat.add_sub_cancel, List.take_left]
  have hlen : byteLength (Line.join earlier) ≤ byteLength before := by
    have hwhole : byteLength t = byteLength (Line.join earlier) + byteLength rest := by
      rw [hrest, byteLength_append]
    omega
  obtain ⟨taken, hb, hafter⟩ := append_of_byteLength_le (hrest.symm.trans ht) hlen
  have hslice : slice? t (byteLength (Line.join earlier)) (min offset (byteLength t)) =
      some taken := by
    have hdrop : dropBytes? t (byteLength (Line.join earlier)) = some rest := by
      rw [hrest]
      exact dropBytes?_append (Line.join earlier) rest
    have hmiddle : byteLength before - byteLength (Line.join earlier) = byteLength taken := by
      rw [hb, byteLength_append, Nat.add_sub_cancel_left]
    rw [← hbefore, slice?, if_pos hlen, hdrop, Option.bind_some, hmiddle, hafter]
    exact takeBytes?_append taken after
  refine ⟨taken, by rw [htake]; exact hb, ?_⟩
  have hstart := startOf?_of_cut h
  simp only [position, hline, hstart, Option.getD_some, hslice, Nat.add_comm 1]

/-- The table gives each line without its terminator, and nothing for other numbers. -/
theorem textOf?_of_cut (h : Cut t lines) (n : Nat) :
    (ofText t).textOf? t n = if n = 0 then none else lines[n - 1]?.map Line.body := by
  by_cases hn : n = 0
  · rw [textOf?, startOf?, if_pos hn, if_pos hn]
    rfl
  rw [if_neg hn]
  by_cases hlt : n - 1 < lines.length
  · -- the lines before it, the line, and the lines behind it
    obtain ⟨earlier, l, later, rfl, hlen⟩ : ∃ earlier l later,
        lines = earlier ++ l :: later ∧ earlier.length = n - 1 := by
      refine ⟨lines.take (n - 1), lines[n - 1], lines.drop (n - 1 + 1), ?_, ?_⟩
      · rw [← List.drop_eq_getElem_cons hlt, List.take_append_drop]
      · rw [List.length_take, Nat.min_eq_left (Nat.le_of_lt hlt)]
    obtain ⟨rest, hrest, hcut⟩ := h.drop (List.cons_ne_nil l later)
    have hstart : (ofText t).startOf? n = some (byteLength (Line.join earlier)) := by
      have := startOf?_of_cut h
      rwa [hlen, show n - 1 + 1 = n by omega] at this
    have hdrop : dropBytes? t (byteLength (Line.join earlier)) = some rest := by
      rw [hrest]
      exact dropBytes?_append (Line.join earlier) rest
    have hplain : (fun c => c != '\r' && c != '\n') = fun c => !endsLine c := by
      funext c
      simp [endsLine, Bool.and_comm, bne]
    have hbody : (earlier ++ l :: later)[n - 1]? = some l := by
      rw [← hlen, List.getElem?_append_right (Nat.le_refl _), Nat.sub_self, List.getElem?_cons_zero]
    rw [hbody, Option.map_some, ← hcut.takeWhile_eq, ← hplain, textOf?, hstart, Option.bind_eq_bind,
      Option.bind_some, hdrop]
    rfl
  · have hnone : lines[n - 1]? = none := List.getElem?_eq_none (Nat.le_of_not_lt hlt)
    have hstart : (ofText t).startOf? n = none := by
      rw [startOf?, if_neg hn, starts_of_cut h, List.getElem?_eq_none]
      rw [lineStarts_length]
      exact Nat.le_of_not_lt hlt
    rw [textOf?, hstart, hnone]
    rfl

/-- A text is cut from the left into lines in one way, and its table is the table of these lines.
    The lines and their terminators make up the text. The starts of the table increase from zero and
    are the starts of the lines. The line of an offset is one more than the number of terminators
    that end at or before it, and where the offset, or the end of the text before it, cuts no
    character, the column is one more than the number of characters since the start of that line.
    The text of line `n` is that of the `n`th line without its terminator, and there is none for
    other numbers. -/
theorem table_of_lines (t : Text) : ∃ lines,
    Cut t lines ∧ (∀ lines', Cut t lines' → lines' = lines) ∧ Line.join lines = t ∧
    (ofText t).starts.Pairwise (· < ·) ∧ (ofText t).starts.head? = some 0 ∧
    (ofText t).starts = lineStarts 0 lines ∧ (ofText t).count = lines.length ∧
    (∀ offset, (ofText t).lineOf offset = 1 + (terminatorEnds 0 lines).countP (· ≤ offset)) ∧
    (∀ before after offset, t = before ++ after →
      byteLength before = min offset (byteLength t) →
      ∃ taken, before = Line.join (lines.take ((ofText t).lineOf offset - 1)) ++ taken ∧
        (ofText t).position t offset = ((ofText t).lineOf offset, 1 + taken.length)) ∧
    ∀ n, (ofText t).textOf? t n = if n = 0 then none else lines[n - 1]?.map Line.body := by
  obtain ⟨lines, h⟩ := Cut.exists_lines t
  have hcount : (ofText t).count = lines.length := by
    rw [count, starts_of_cut h, lineStarts_length]
  have hline (offset : Nat) :
      (ofText t).lineOf offset = 1 + (terminatorEnds 0 lines).countP (· ≤ offset) := by
    rw [lineOf_eq, startsFrom_eq_terminatorEnds h]
  exact ⟨lines, h, fun _ h' => h.unique h', h.join_eq, starts_sorted t, rfl, starts_of_cut h,
    hcount, hline, fun _ _ _ ht hb => position_of_cut h ht hb, textOf?_of_cut h⟩

/-- A pair behind a line, a lone carriage return, and an empty line with a pair at the end. -/
def mixed : Text := "é\r\nb\r\r\n".toList

def mixedLines : List Line :=
  [⟨['é'], ['\r', '\n']⟩, ⟨['b'], ['\r']⟩, ⟨[], ['\r', '\n']⟩, ⟨[], []⟩]

/-- Behind the letter on the second line the column counts one character, and the third line is
    empty. -/
theorem table_of_lines_mixed :
    Cut mixed mixedLines ∧ byteLength "é\r\nb".toList = min 5 (byteLength mixed) ∧
      (∃ taken, "é\r\nb".toList = Line.join (mixedLines.take 1) ++ taken ∧
        (ofText mixed).position mixed 5 = (2, 1 + taken.length)) ∧
      (ofText mixed).textOf? mixed 3 = some [] := by
  have hnone : Plain [] := fun c hc => absurd hc List.not_mem_nil
  have hthird : Cut ['\r', '\n'] (mixedLines.drop 2) :=
    @Cut.next [] ['\r', '\n'] [] _ hnone (.inl rfl) (fun h => absurd h.2 (by decide)) (.last hnone)
  have hsecond : Cut ['b', '\r', '\r', '\n'] (mixedLines.drop 1) :=
    @Cut.next ['b'] ['\r'] ['\r', '\n'] _ (by simp [Plain, endsLine]) (.inr (.inr rfl))
      (fun h => absurd h.2 (by decide)) hthird
  have hcut : Cut mixed mixedLines :=
    @Cut.next ['é'] ['\r', '\n'] ['b', '\r', '\r', '\n'] _ (by simp [Plain, endsLine]) (.inl rfl)
      (fun h => absurd h.1 (by decide)) hsecond
  obtain ⟨lines, -, hunique, -, -, -, -, -, -, hplace, htext⟩ := table_of_lines mixed
  obtain rfl := hunique mixedLines hcut
  have hlen : byteLength "é\r\nb".toList = min 5 (byteLength mixed) := by decide
  exact ⟨hcut, hlen, hplace "é\r\nb".toList "\r\r\n".toList 5 rfl hlen, htext 3⟩

end LineTable

end Peg
