/-
  Peg.Proofs.CaretReports

  What a report shows of the place that it is about. The line and what is before the
  place on it are cut out of the text apart from each other. They agree because a place
  that cuts neither a character nor a terminator in two is on what stands on one of the
  lines, or at its end (`Cut.place`): then what is before it on its line is a front of
  the line as it is shown, and the caret stands at most one column behind the line.
-/
import Peg.Diagnostic.Report
import Peg.Proofs.Underline

namespace Peg

open Text

/-! ## Places on lines -/

/-- A pair that is cut stays cut in a longer text. -/
theorem Text.CutsPair.append {before after : Text} (h : CutsPair before after)
    (front rest : Text) : CutsPair (front ++ before) (after ++ rest) := by
  obtain ⟨hlast, hhead⟩ := h
  constructor
  · rw [List.getLast?_append, hlast]
    rfl
  · rw [List.head?_append, hhead]
    rfl

/-- A terminator can be cut in two only if it is a pair. -/
theorem IsTerminator.split {front rest : Text} (h : IsTerminator (front ++ rest)) :
    front = [] ∨ rest = [] ∨ CutsPair front rest := by
  cases front with
  | nil => exact .inl rfl
  | cons c front =>
    cases rest with
    | nil => exact .inr (.inl rfl)
    | cons d rest =>
      -- at least two characters, so that it is the pair
      rcases h with h | h | h
      · cases front with
        | nil =>
          obtain ⟨rfl, rfl, rfl⟩ : c = '\r' ∧ d = '\n' ∧ rest = [] := by simpa using h
          exact .inr (.inr ⟨rfl, rfl⟩)
        | cons e front => simp at h
      · simp at h
      · simp at h

/-- A place that splits no pair is on what stands on one of the lines, or at its end. -/
theorem Cut.place {t : Text} {lines : List Line} (h : Cut t lines) {front rest : Text}
    (ht : t = front ++ rest) (hpair : ¬ CutsPair front rest) :
    ∃ earlier l later before after, lines = earlier ++ l :: later ∧ l.body = before ++ after ∧
      front = Line.join earlier ++ before := by
  induction h generalizing front with
  | @last body hbody => exact ⟨[], ⟨body, []⟩, [], front, rest, rfl, ht, rfl⟩
  | @next body ending others lines hbody hending hlong _ ih =>
    -- the place behind this line, if it is on one of the others
    have behind {more : Text} (hfront : front = body ++ ending ++ more)
        (hothers : others = more ++ rest) :
        ∃ earlier l later before after, ⟨body, ending⟩ :: lines = earlier ++ l :: later ∧
          l.body = before ++ after ∧ front = Line.join earlier ++ before := by
      have hmore : ¬ CutsPair more rest := by
        intro hcut
        have hlonger := hcut.append (body ++ ending) []
        rw [← hfront, List.append_nil] at hlonger
        exact hpair hlonger
      obtain ⟨earlier, l, later, before, after, rfl, hl, hjoin⟩ := ih hothers hmore
      refine ⟨⟨body, ending⟩ :: earlier, l, later, before, after, rfl, hl, ?_⟩
      rw [hfront, hjoin, Line.join_cons, Line.text, List.append_assoc (body ++ ending)]
    rw [List.append_assoc] at ht
    rcases List.append_eq_append_iff.mp ht with ⟨more, hfront, hrest⟩ | ⟨after, hbefore, -⟩
    · rcases List.append_eq_append_iff.mp hrest with ⟨more', hmore, hothers⟩ | ⟨part, he, hafter⟩
      · apply behind _ hothers
        rw [hfront, hmore, List.append_assoc]
      · -- inside the terminator, or at one of its ends
        rw [he] at hending
        rcases hending.split with hmore | hpart | hcut
        · rw [hmore, List.append_nil] at hfront
          exact ⟨[], ⟨body, ending⟩, lines, body, [], rfl, (List.append_nil body).symm, hfront⟩
        · rw [hpart, List.append_nil] at he
          rw [hpart, List.nil_append] at hafter
          have hwhole : front = body ++ ending ++ [] := by rw [hfront, he, List.append_nil]
          exact behind hwhole (hafter.symm.trans (List.nil_append rest).symm)
        · have hlonger := hcut.append body others
          rw [← hfront, ← hafter] at hlonger
          exact absurd hlonger hpair
    · exact ⟨[], ⟨body, ending⟩, lines, front, after, rfl, hbefore, rfl⟩

namespace LineTable

/-- An offset beyond the end is in the line of the end. -/
theorem lineOf_min (t : Text) (offset : Nat) :
    (ofText t).lineOf (min offset (byteLength t)) = (ofText t).lineOf offset := by
  rcases Nat.le_total offset (byteLength t) with hle | hge
  · rw [Nat.min_eq_left hle]
  · rw [Nat.min_eq_right hge, lineOf, lineOf, countP_starts_within hge,
      countP_starts_within (Nat.le_refl _)]

/-- An offset beyond the end has the place of the end. -/
theorem position_min (t : Text) (offset : Nat) :
    (ofText t).position t (min offset (byteLength t)) = (ofText t).position t offset := by
  rw [position, position, lineOf_min, Nat.min_assoc, Nat.min_self]

end LineTable

open LineTable

/-! ## The report -/

namespace Report

/-- As many underscores stand under a tab as the report says, and one under any other
    character. -/
theorem underscore_eq (r : Report) (c : Char) :
    r.underscore c = List.replicate (if c = '\t' then r.tabWidth else 1) '_' := by
  rw [underscore]
  split
  · rfl
  · rfl

/-- If one underscore stands for a tab too, there are as many as characters. -/
theorem flatMap_underscore {r : Report} (h : r.tabWidth = 1) (before : Text) :
    before.flatMap r.underscore = List.replicate before.length '_' := by
  induction before with
  | nil => rfl
  | cons c before ih =>
    have hc : r.underscore c = ['_'] := by
      rw [underscore_eq, h, ite_self]
      rfl
    rw [List.flatMap_cons, ih, hc, List.length_cons, List.replicate_succ, List.singleton_append]

/-- The first line of a report has the number of the line, and the name of the file if there is
    one. -/
theorem header_eq (r : Report) (line : Nat) :
    r.header line = match r.file with
      | none => "In line " ++ toString line ++ ":"
      | some file => "In file " ++ file ++ ", line " ++ toString line ++ ":" := by
  rw [header]
  cases r.file <;> rfl

/-- A report on a place on a line shows that line, and below it what stands before the place on
    it as underscores. -/
theorem render_of_cut (r : Report) {earlier later : List Line} {l : Line} {before after : Text}
    {position : Nat} (h : Cut r.source (earlier ++ l :: later)) (hbody : l.body = before ++ after)
    (hplace : byteLength (Line.join earlier) + byteLength before =
      min position (byteLength r.source)) (message : String) :
    r.render position message =
      r.header (earlier.length + 1) ++ "\n" ++ message ++ "\n" ++ String.ofList l.body ++ "\n" ++
        String.ofList (r.indicator before) ++ "\n" := by
  obtain ⟨rest, hsource, hrest⟩ := h.drop (List.cons_ne_nil l later)
  have hline : (LineTable.ofText r.source).lineOf (min position (byteLength r.source)) =
      earlier.length + 1 := by
    have hposition := congrArg Prod.fst (position_of_cut_line h hbody)
    rw [hplace] at hposition
    exact hposition
  have hshown :
      (LineTable.ofText r.source).textOf? r.source (earlier.length + 1) = some l.body := by
    rw [textOf?_of_cut h, if_neg (Nat.succ_ne_zero _), Nat.add_sub_cancel,
      List.getElem?_append_right (Nat.le_refl _), Nat.sub_self, List.getElem?_cons_zero,
      Option.map_some]
  have hbefore : slice? r.source (byteLength (Line.join earlier))
      (min position (byteLength r.source)) = some before := by
    have hdrop : dropBytes? r.source (byteLength (Line.join earlier)) = some rest := by
      rw [hsource]
      exact dropBytes?_append _ _
    have hfront : rest = before ++ (after ++ l.ending ++ Line.join later) := by
      rw [← hrest.join_eq, Line.join_cons, Line.text, hbody]
      simp only [List.append_assoc]
    rw [← hplace, slice?, if_pos (Nat.le_add_right _ _), hdrop, Option.bind_some,
      Nat.add_sub_cancel_left, hfront]
    exact takeBytes?_append before _
  rw [render, hline, startOf?_of_cut h, Option.getD_some, hshown, Option.getD_some, hbefore,
    Option.getD_some]

/-- A report on any place that cuts no character and no pair in two, where one beyond the end counts
    as the end: the text is cut into lines, and the place is on what stands on one of them or at its
    end. The report begins with a line that has the number of this line, and the name of the file if
    there is one. Below it are the message, all that stands on the line, and an underscore for every
    character of the line before the place, or as many as the report says for a tab, with the caret
    behind them. The table has the place in that line, in the column behind these characters, so
    that the caret stands in that column if one underscore stands for a tab, which is at most one
    behind the line. -/
theorem caret_marks_place (r : Report) (position : Nat) (message : String)
    (hboundary : position < byteLength r.source → IsBoundary r.source position)
    (hpair : ¬ SplitsPair r.source position) :
    ∃ earlier l later before after,
      Cut r.source (earlier ++ l :: later) ∧ l.body = before ++ after ∧
      byteLength (Line.join earlier) + byteLength before = min position (byteLength r.source) ∧
      (let number := toString (earlier.length + 1)
      let first := match r.file with
        | none => "In line " ++ number ++ ":"
        | some file => "In file " ++ file ++ ", line " ++ number ++ ":"
      let underscores := before.flatMap fun c =>
        List.replicate (if c = '\t' then r.tabWidth else 1) '_'
      r.render position message =
          first ++ "\n" ++ message ++ "\n" ++ String.ofList l.body ++ "\n" ++
            String.ofList (underscores ++ ['^', '_']) ++ "\n" ∧
        (r.tabWidth = 1 → underscores = List.replicate before.length '_')) ∧
      (LineTable.ofText r.source).position r.source position =
        (earlier.length + 1, before.length + 1) ∧
      before.length + 1 ≤ l.body.length + 1 := by
  -- the text before the place, which is all of it if the place is beyond the end
  obtain ⟨front, rest, hsource, hfront, hwhole⟩ : ∃ front rest, r.source = front ++ rest ∧
      min position (byteLength r.source) = byteLength front ∧ ¬ CutsPair front rest := by
    by_cases hlt : position < byteLength r.source
    · obtain ⟨front, rest, hsource, rfl⟩ := hboundary hlt
      refine ⟨front, rest, hsource, Nat.min_eq_left (Nat.le_of_lt hlt), ?_⟩
      rw [hsource] at hpair
      exact fun hcut => hpair (splitsPair_iff.mpr hcut)
    · refine ⟨r.source, [], (List.append_nil _).symm, Nat.min_eq_right (Nat.le_of_not_lt hlt), ?_⟩
      rintro ⟨-, hhead⟩
      cases hhead
  obtain ⟨lines, hcut⟩ := Cut.exists_lines r.source
  obtain ⟨earlier, l, later, before, after, rfl, hbody, hjoin⟩ := hcut.place hsource hwhole
  have hplace : byteLength (Line.join earlier) + byteLength before =
      min position (byteLength r.source) := by
    rw [hfront, hjoin, byteLength_append]
  have hunderscore : r.underscore =
      fun c => List.replicate (if c = '\t' then r.tabWidth else 1) '_' := funext r.underscore_eq
  refine ⟨earlier, l, later, before, after, hcut, hbody, hplace, ⟨?_, ?_⟩, ?_, ?_⟩
  · rw [render_of_cut r hcut hbody hplace, header_eq, indicator, hunderscore]
  · intro htab
    rw [← hunderscore]
    exact flatMap_underscore htab before
  · rw [← position_min, ← hplace]
    exact position_of_cut_line hcut hbody
  · rw [hbody, List.length_append]
    omega

/-- A tab and a letter of two bytes on the second line, which ends with a pair. -/
def tabbed (file : Option String) : Report := ⟨"a\n\té\r\n".toList, file, 2⟩

/-- The place is at the end of the second line, in front of the pair; once in a file with a name,
    and once in a text without one. -/
theorem caret_marks_place_tabbed :
    (5 < byteLength (tabbed none).source → IsBoundary (tabbed none).source 5) ∧
    ¬ SplitsPair (tabbed none).source 5 ∧
    (tabbed (some "calc.txt")).render 5 "m" = "In file calc.txt, line 2:\nm\n\té\n___^_\n" ∧
    (tabbed none).render 5 "m" = "In line 2:\nm\n\té\n___^_\n" ∧
    (LineTable.ofText (tabbed none).source).position (tabbed none).source 5 = (2, 3) := by
  have hboundary : 5 < byteLength (tabbed none).source → IsBoundary (tabbed none).source 5 := by
    decide
  have hpair : ¬ SplitsPair (tabbed none).source 5 := by
    intro hsplits
    have hcut : CutsPair "a\n\té".toList "\r\n".toList := splitsPair_iff.mp hsplits
    exact absurd hcut.1 (by decide)
  have hnone : Plain [] := fun c hc => absurd hc List.not_mem_nil
  have hsecond : Cut ['\t', 'é', '\r', '\n'] [⟨['\t', 'é'], ['\r', '\n']⟩, ⟨[], []⟩] :=
    @Cut.next ['\t', 'é'] ['\r', '\n'] [] _ (by simp [Plain, endsLine]) (.inl rfl)
      (fun h => absurd h.2 (by decide)) (.last hnone)
  have hcut : Cut (tabbed none).source [⟨['a'], ['\n']⟩, ⟨['\t', 'é'], ['\r', '\n']⟩, ⟨[], []⟩] :=
    @Cut.next ['a'] ['\n'] ['\t', 'é', '\r', '\n'] _ (by simp [Plain, endsLine]) (.inr (.inl rfl))
      (fun h => absurd h.1 (by decide)) hsecond
  have hplaced : (LineTable.ofText (tabbed none).source).position (tabbed none).source 5 = (2, 3) :=
    by decide
  -- whatever the file is called, one line and two characters are before the place
  have hshown (file : Option String) : (tabbed file).render 5 "m" =
      (match file with
        | none => "In line " ++ toString 2 ++ ":"
        | some file => "In file " ++ file ++ ", line " ++ toString 2 ++ ":") ++ "\n" ++
      "m" ++ "\n" ++ String.ofList ['\t', 'é'] ++ "\n" ++ String.ofList ['_', '_', '_', '^', '_'] ++ "\n" := by
    obtain ⟨earlier, l, later, before, after, hlines, hbody, -, ⟨hrender, -⟩, hposition, -⟩ :=
      caret_marks_place (tabbed file) 5 "m" hboundary hpair
    obtain ⟨hearlier, hlength⟩ : earlier.length = 1 ∧ before.length = 2 := by
      simpa using hposition.symm.trans hplaced
    obtain ⟨e, rfl⟩ := List.length_eq_one_iff.mp hearlier
    obtain ⟨-, rfl, -⟩ : e = _ ∧ l = _ ∧ later = _ := by simpa using hcut.unique hlines
    have hbefore : before = ['\t', 'é'] := by
      have htake : (before ++ after).take before.length = before := List.take_left
      rw [← htake, ← hbody, hlength]
      rfl
    rw [hrender, hbefore]
    cases file <;> rfl
  refine ⟨hboundary, hpair, ?_, ?_, hplaced⟩
  · rw [hshown]
    decide +kernel
  · rw [hshown]
    decide +kernel

end Report

end Peg
