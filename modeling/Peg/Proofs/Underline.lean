/-
  Peg.Proofs.Underline

  The line that is shown with a label, and what stands below it. A label on a part of
  one line is shown with that line. The carets below start under the first character
  of the part, as the blanks in front of them are counted in characters. But there are
  as many carets as the part has bytes, so that they end under its last character only
  if each of its characters is one byte.
-/
import Peg.Diagnostic.Terminal
import Peg.Proofs.LineSplit

namespace Peg

open Text

namespace Text

/-! ## Bytes and characters -/

theorem length_le_byteLength (t : Text) : t.length ≤ byteLength t := by
  induction t with
  | nil => exact Nat.le_refl 0
  | cons c r ih =>
    have hpos := c.utf8Size_pos
    rw [List.length_cons, byteLength_cons]
    omega

/-- A text has as many bytes as characters if each character is one byte. -/
theorem byteLength_eq_length_iff (t : Text) :
    byteLength t = t.length ↔ ∀ c ∈ t, c.utf8Size = 1 := by
  induction t with
  | nil => simp
  | cons c r ih =>
    have hpos := c.utf8Size_pos
    have hle := length_le_byteLength r
    rw [List.forall_mem_cons, ← ih, List.length_cons, byteLength_cons]
    omega

/-- The same for texts that count as one character at least. -/
theorem max_byteLength_eq_iff (t : Text) :
    max (byteLength t) 1 = max t.length 1 ↔ ∀ c ∈ t, c.utf8Size = 1 := by
  have hle := length_le_byteLength t
  rw [← byteLength_eq_length_iff]
  cases t with
  | nil => simp
  | cons c r =>
    rw [List.length_cons] at hle ⊢
    omega

end Text

/-! ## The place of a part of a line -/

namespace LineTable

variable {t : Text} {earlier later : List Line} {l : Line}

/-- From the start of a line to the end of what stands on it, as many lines have ended as are before
    it. -/
theorem countP_of_cut_line (h : Cut t (earlier ++ l :: later)) {base offset : Nat}
    (hstart : base + byteLength (Line.join earlier) ≤ offset)
    (hstop : offset ≤ base + byteLength (Line.join earlier) + byteLength l.body) :
    (startsFrom base t).countP (· ≤ offset) = earlier.length := by
  induction earlier generalizing t base with
  | nil =>
    rw [List.nil_append] at h
    rw [Line.join_nil, byteLength_nil, Nat.add_zero] at hstop
    rcases h with hbody | @⟨body, ending, rest, _, hbody, hending, hlong, -⟩
    · rw [startsFrom_plain hbody]
      rfl
    · -- the next line starts behind the terminator
      have hpos : byteLength ending ≠ 0 := fun hzero => hending.ne_nil (eq_nil_of_byteLength hzero)
      have hnext : ¬ base + byteLength (body ++ ending) ≤ offset := by
        dsimp only at hstop
        rw [byteLength_append]
        omega
      have hbeyond := countP_startsFrom_beyond (Nat.le_of_not_le hnext) rest
      rw [startsFrom_line hbody hending hlong, List.countP_cons_of_neg (by simpa using hnext),
        hbeyond]
      rfl
  | cons e es ih =>
    rw [List.cons_append] at h
    generalize hls : es ++ l :: later = more at h
    rcases h with - | @⟨body, ending, rest, _, hbody, hending, hlong, h⟩
    · exact absurd (List.append_eq_nil_iff.mp hls).2 (List.cons_ne_nil l later)
    · rw [← hls] at h
      rw [Line.join_cons, byteLength_append, ← Nat.add_assoc, Line.text] at hstart hstop
      have hnext : base + byteLength (body ++ ending) ≤ offset :=
        Nat.le_trans (Nat.le_add_right _ _) hstart
      rw [startsFrom_line hbody hending hlong, List.countP_cons_of_pos (by simpa using hnext),
        ih h hstart hstop, List.length_cons]

/-- A place on a line is on that line, and its column counts the characters before it. -/
theorem position_of_cut_line {before after : Text} (h : Cut t (earlier ++ l :: later))
    (hbody : l.body = before ++ after) :
    (ofText t).position t (byteLength (Line.join earlier) + byteLength before) =
      (earlier.length + 1, before.length + 1) := by
  obtain ⟨rest, ht, hrest⟩ := h.drop (List.cons_ne_nil l later)
  have hline : (ofText t).lineOf (byteLength (Line.join earlier) + byteLength before) =
      earlier.length + 1 := by
    rw [lineOf_eq, countP_of_cut_line h (by omega) (by rw [hbody, byteLength_append]; omega),
      Nat.add_comm]
  -- what is before the place is a front of the text
  have hfront : t = (Line.join earlier ++ before) ++ (after ++ l.ending ++ Line.join later) := by
    rw [ht, ← hrest.join_eq, Line.join_cons, Line.text, hbody]
    simp only [List.append_assoc]
  have hlen : byteLength (Line.join earlier ++ before) =
      min (byteLength (Line.join earlier) + byteLength before) (byteLength t) := by
    rw [hfront]
    simp only [byteLength_append]
    omega
  obtain ⟨taken, htaken, hposition⟩ := position_of_cut h hfront hlen
  rw [hline, Nat.add_sub_cancel, List.take_left] at htaken
  rw [hposition, hline, ← List.append_cancel_left htaken, Nat.add_comm 1]

end LineTable

/-! ## The line and what stands below it -/

@[simp] theorem Fragment.render_plain (colors : Bool) (text : String) :
    (Fragment.plain text).render colors = text := by
  cases colors <;> rfl

theorem spaces_length (n : Nat) : (spaces n).length = n := by
  rw [spaces, String.length_ofList, List.length_replicate]

/-- A label on a part of a line is laid out with that line. -/
theorem Label.layoutIn_of_cut (source : Source) {l : Label} {earlier later : List Line}
    {before covered after ending : Text}
    (h : Cut source.text (earlier ++ ⟨before ++ covered ++ after, ending⟩ :: later))
    (hstart : l.span.start = byteLength (Line.join earlier) + byteLength before)
    (hstop : l.span.stop = l.span.start + byteLength covered) :
    let number := toString (earlier.length + 1)
    let gutter := spaces number.length
    let carets := String.ofList (List.replicate (max (byteLength covered) 1) '^')
    l.layoutIn source =
      [.plain (gutter ++ l.marker ++ " " ++ source.name ++ ":" ++ number ++ ":" ++
          toString (before.length + 1) ++ "\n"),
        .plain (gutter ++ " |\n"),
        .plain (number ++ " | " ++ String.ofList (before ++ covered ++ after) ++ "\n"),
        .plain (gutter ++ " | " ++ spaces before.length),
        ⟨l.style, carets ++ " " ++ l.message⟩,
        .plain "\n"] := by
  have hposition := LineTable.position_of_cut_line h (List.append_assoc before covered after)
  have htext : (LineTable.ofText source.text).textOf? source.text (earlier.length + 1) =
      some (before ++ covered ++ after) := by
    rw [LineTable.textOf?_of_cut h, if_neg (Nat.succ_ne_zero _), Nat.add_sub_cancel,
      List.getElem?_append_right (Nat.le_refl _), Nat.sub_self]
    rfl
  have hlen : l.span.length = byteLength covered := by
    rw [Span.length, hstop, Nat.add_sub_cancel_left]
  rw [layoutIn, hstart, hposition]
  dsimp only
  rw [htext, hlen, Nat.add_sub_cancel]
  rfl

namespace Diagnostic

/-- What is laid out for a label stands in all that is laid out for its diagnostic. -/
theorem layout_of_label (source : Option Source) {d : Diagnostic} {l : Label}
    (hl : l ∈ d.labels) : l.layout source <:+: d.layout source := by
  have hlabels : l.layout source <:+: d.labels.flatMap (·.layout source) :=
    List.infix_of_mem_flatten (List.mem_map_of_mem hl)
  rw [layout, List.append_assoc]
  exact hlabels.trans (List.infix_append _ _ _)

/-- What is laid out for a label stands in all that is written when its diagnostic is emitted. -/
theorem transcript_of_label (colors : Bool) (source : Option Source) {calls : List Call}
    {d : Diagnostic} {l : Label} (hd : .emit d ∈ calls) (hl : l ∈ d.labels) :
    ∃ above below, transcript colors source calls =
      above ++ String.join ((l.layout source).map (·.render colors)) ++ below := by
  have hcall : d.layout source <:+: calls.flatMap (·.layout source) :=
    List.infix_of_mem_flatten (List.mem_map_of_mem hd)
  obtain ⟨above, below, hall⟩ := (layout_of_label source hl).trans hcall
  refine ⟨String.join (above.map (·.render colors)), String.join (below.map (·.render colors)), ?_⟩
  rw [transcript, ← hall, List.map_append, List.map_append, String.join_append, String.join_append]

/-- Whatever is emitted: a label on a part of one line is shown with its place, the line, and below
    the line as many blanks as there are characters before the part, behind a margin as wide as
    that of the line, and then carets, as many as the part has bytes but one at least. That is as
    many as the part has characters, but one at least, exactly if each of its characters is one
    byte. -/
theorem underline_counts_bytes (colors : Bool) (source : Source) {calls : List Call}
    {d : Diagnostic} {l : Label} (hd : .emit d ∈ calls) (hl : l ∈ d.labels)
    {earlier later : List Line} {before covered after ending : Text}
    (h : Cut source.text (earlier ++ ⟨before ++ covered ++ after, ending⟩ :: later))
    (hstart : l.span.start = byteLength (Line.join earlier) + byteLength before)
    (hstop : l.span.stop = l.span.start + byteLength covered) :
    let number := toString (earlier.length + 1)
    let gutter := spaces number.length
    let carets := String.ofList (List.replicate (max (byteLength covered) 1) '^')
    (∃ above below, transcript colors (some source) calls =
      above ++ (gutter ++ l.marker ++ " " ++ source.name ++ ":" ++ number ++ ":" ++
          toString (before.length + 1) ++ "\n") ++
        (gutter ++ " |\n") ++
        (number ++ " | " ++ String.ofList (before ++ covered ++ after) ++ "\n") ++
        (gutter ++ " | " ++ spaces before.length) ++
        (Fragment.mk l.style (carets ++ " " ++ l.message)).render colors ++ "\n" ++ below) ∧
    (gutter ++ " | ").length = (number ++ " | ").length ∧
    (max (byteLength covered) 1 = max covered.length 1 ↔ ∀ c ∈ covered, c.utf8Size = 1) := by
  intro number gutter carets
  refine ⟨?_, ?_, max_byteLength_eq_iff covered⟩
  · obtain ⟨above, below, hall⟩ := transcript_of_label colors (some source) hd hl
    rw [Label.layout, Label.layoutIn_of_cut source h hstart hstop] at hall
    refine ⟨above, below, ?_⟩
    rw [hall]
    dsimp only [number, gutter, carets]
    simp only [List.map_cons, List.map_nil, Fragment.render_plain, String.join_cons,
      String.join_nil, String.append_empty, String.append_assoc]
  · rw [String.length_append, String.length_append, spaces_length]

/-- A letter of two bytes on the second line, with a label on it. -/
def accented : Source := ⟨"input", "a\né".toList⟩

def onAccent : Diagnostic := (error.withMessage "m").withLabel ⟨2, 4⟩ "here"

/-- The label is on all of the second line. -/
theorem underline_counts_bytes_accent :
    Cut accented.text [⟨['a'], ['\n']⟩, ⟨['é'], []⟩] ∧
    (∃ above below, transcript false (some accented) [.emit onAccent] =
      above ++ (" " ++ "-->" ++ " " ++ "input" ++ ":" ++ "2" ++ ":" ++ "1" ++ "\n") ++
        (" " ++ " |\n") ++ ("2" ++ " | " ++ "é" ++ "\n") ++ (" " ++ " | " ++ "") ++
        ("^^" ++ " " ++ "here") ++ "\n" ++ below) ∧
    (max (byteLength ['é']) 1 = max ['é'].length 1 ↔ ∀ c ∈ ['é'], c.utf8Size = 1) := by
  have hlast : Cut ['é'] [⟨['é'], []⟩] := .last (by simp [Plain, endsLine])
  have hcut : Cut accented.text [⟨['a'], ['\n']⟩, ⟨['é'], []⟩] :=
    @Cut.next ['a'] ['\n'] ['é'] _ (by simp [Plain, endsLine]) (.inr (.inl rfl))
      (fun h => absurd h.1 (by decide)) hlast
  have h := @underline_counts_bytes false accented [.emit onAccent] onAccent
    ⟨⟨2, 4⟩, "here", true⟩ List.mem_cons_self List.mem_cons_self [⟨['a'], ['\n']⟩] []
    [] ['é'] [] [] hcut rfl rfl
  exact ⟨hcut, h.1, h.2.2⟩

/-- Two carets stand under the one letter. -/
theorem underline_beyond_letter :
    transcript false (some accented) [.emit onAccent] =
      "error: m\n --> input:2:1\n  |\n2 | é\n  | ^^ here\n\n" := by
  decide +kernel

end Diagnostic

end Peg
