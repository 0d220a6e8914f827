/-
  Peg.Proofs.EscapeSequences

  What colours add to the output for a terminal. A reader that deletes escape sequences
  is a machine with three states (`shown`). It gives a text without escape characters
  back as it is, and passes over the sequences around a coloured fragment; both hold
  whatever follows, so that what is written can be read fragment by fragment. What is
  laid out has escape characters only where the given strings have them.
-/
import Peg.Diagnostic.Terminal
import Peg.Proofs.Underline

namespace Peg

open Text

/-! ## Deleting escape sequences -/

/-- The character that begins an escape sequence. -/
def escape : Char := '\x1b'

/-- Where in an escape sequence a reader is: outside of any, behind the escape character, or among
    the parameters of a control sequence. -/
inductive Reading where
  | outside
  | escaped
  | control
  deriving DecidableEq, Repr

/-- The last character of a control sequence. -/
def isFinal (c : Char) : Bool := '@' ≤ c && c ≤ '~'

/-- A character between the escape character and the last one of the shorter sequences. -/
def isIntermediate (c : Char) : Bool := ' ' ≤ c && c ≤ '/'

/-- What is left of a text when its escape sequences are deleted. -/
def shown : Reading → Text → Text
  | _, [] => []
  | .outside, c :: r => if c = escape then shown .escaped r else c :: shown .outside r
  | .escaped, c :: r =>
    if c = '[' then shown .control r
    else if isIntermediate c then shown .escaped r
    else shown .outside r
  | .control, c :: r => if isFinal c then shown .outside r else shown .control r

/-- A text without escape characters is left as it is. -/
theorem shown_append {t : Text} (h : escape ∉ t) (r : Text) :
    shown .outside (t ++ r) = t ++ shown .outside r := by
  induction t with
  | nil => rfl
  | cons c t ih =>
    have hc : c ≠ escape := fun he => h (by rw [he]; exact List.mem_cons_self)
    have ht : escape ∉ t := fun hmem => h (List.mem_cons_of_mem c hmem)
    rw [List.cons_append, shown, if_neg hc, ih ht, List.cons_append]

/-- Among the parameters of a control sequence, all is deleted until its last character. -/
theorem shown_parameters {parameters : Text} (h : ∀ c ∈ parameters, isFinal c = false) {last : Char}
    (hlast : isFinal last = true) (r : Text) :
    shown .control (parameters ++ last :: r) = shown .outside r := by
  induction parameters with
  | nil => rw [List.nil_append, shown, if_pos hlast]
  | cons c parameters ih =>
    have hc : ¬ isFinal c = true := by
      rw [h c List.mem_cons_self]
      exact Bool.false_ne_true
    rw [List.cons_append, shown, if_neg hc, ih fun d hd => h d (List.mem_cons_of_mem c hd)]

/-- A control sequence is deleted, whatever follows. -/
theorem shown_control {parameters : Text} (h : ∀ c ∈ parameters, isFinal c = false) {last : Char}
    (hlast : isFinal last = true) (r : Text) :
    shown .outside (escape :: '[' :: (parameters ++ last :: r)) = shown .outside r := by
  rw [shown, if_pos rfl, shown, if_pos rfl, shown_parameters h hlast]

example : shown .outside "\x1b[1;31merror\x1b[0m: [m]".toList = "error: [m]".toList := by decide

/-- The sequence that switches a style on is deleted. -/
theorem shown_escapeSequence {code : String} (h : code.toList.all (!isFinal ·) = true) (r : Text) :
    shown .outside ((escapeSequence code).toList ++ r) = shown .outside r := by
  have hcode (c : Char) (hc : c ∈ code.toList) : isFinal c = false := by
    have hnot := List.all_eq_true.mp h c hc
    rwa [Bool.not_eq_true'] at hnot
  have hsequence : (escapeSequence code).toList ++ r =
      escape :: '[' :: (code.toList ++ 'm' :: r) := by
    rw [escapeSequence, String.toList_append, String.toList_append, List.append_assoc,
      List.append_assoc]
    rfl
  rw [hsequence]
  exact shown_control hcode rfl r

/-- The parameters of the styles are digits and separators. -/
theorem Style.code_not_final (s : Style) : s.code.toList.all (!isFinal ·) = true := by
  cases s <;> decide

/-- Of a fragment in colours its text is left. -/
theorem Fragment.shown_render {f : Fragment} (h : escape ∉ f.text.toList) (r : Text) :
    shown .outside ((f.render true).toList ++ r) = f.text.toList ++ shown .outside r := by
  rw [Fragment.render]
  split
  · rw [String.toList_append, String.toList_append, List.append_assoc, List.append_assoc,
      shown_escapeSequence f.style.code_not_final, shown_append h,
      shown_escapeSequence (by decide)]
  · exact shown_append h r

/-! ## Strings without escape characters -/

/-- No character of the string begins an escape sequence. -/
def Unescaped (s : String) : Prop := escape ∉ s.toList

instance (s : String) : Decidable (Unescaped s) := inferInstanceAs (Decidable (¬ _))

@[simp] theorem unescaped_append {s t : String} :
    Unescaped (s ++ t) ↔ Unescaped s ∧ Unescaped t := by
  rw [Unescaped, String.toList_append, List.mem_append, not_or]
  rfl

theorem unescaped_ofList {t : Text} : Unescaped (String.ofList t) ↔ escape ∉ t := by
  rw [Unescaped, String.toList_ofList]

/-- Numbers are written in digits. -/
@[simp] theorem unescaped_number (n : Nat) : Unescaped (toString n) := by
  rw [Nat.toString_eq_ofList_toDigits, unescaped_ofList]
  intro h
  have hdigit : escape.isDigit = true := Nat.isDigit_of_mem_toDigits (by decide) (by decide) h
  exact absurd hdigit (by decide)

theorem unescaped_repeated {c : Char} (h : c ≠ escape) (n : Nat) :
    Unescaped (String.ofList (List.replicate n c)) := by
  rw [unescaped_ofList]
  exact fun hmem => h (List.eq_of_mem_replicate hmem).symm

@[simp] theorem unescaped_spaces (n : Nat) : Unescaped (spaces n) :=
  unescaped_repeated (by decide) n

@[simp] theorem unescaped_underline (n : Nat) :
    Unescaped (String.ofList (List.replicate n '^')) :=
  unescaped_repeated (by decide) n

/-- A string stands for itself in a longer one. -/
@[simp] theorem unescaped_toString {s : String} : Unescaped (toString s) ↔ Unescaped s := Iff.rfl

/-- What a line holds, its text does. -/
theorem LineTable.mem_of_textOf? {table : LineTable} {text shown : Text} {n : Nat} {c : Char}
    (h : table.textOf? text n = some shown) (hc : c ∈ shown) : c ∈ text := by
  rw [LineTable.textOf?] at h
  obtain ⟨start, -, h⟩ := Option.bind_eq_some_iff.mp h
  obtain ⟨rest, hrest, h⟩ := Option.bind_eq_some_iff.mp h
  obtain ⟨before, hbefore, -⟩ := dropBytes?_eq_some_iff.mp hrest
  rw [← Option.some.inj h] at hc
  rw [hbefore]
  exact List.mem_append_right before ((List.takeWhile_sublist _).mem hc)

/-- A source without escape characters shows none. -/
theorem LineTable.unescaped_line (table : LineTable) {text : Text} (h : escape ∉ text) (n : Nat) :
    Unescaped (String.ofList ((table.textOf? text n).getD [])) := by
  rw [unescaped_ofList]
  cases hline : table.textOf? text n with
  | none => exact List.not_mem_nil
  | some line => exact fun hmem => h (mem_of_textOf? hline hmem)

/-! ## Layout -/

/-- No fragment has an escape character. -/
def Uncoloured (fragments : List Fragment) : Prop := ∀ f ∈ fragments, Unescaped f.text

/-- What is shown of the source has no escape character. -/
structure Source.Unescaped (s : Source) : Prop where
  name : Peg.Unescaped s.name
  text : escape ∉ s.text

/-- No string that the diagnostic is given has an escape character. -/
structure Diagnostic.Unescaped (d : Diagnostic) : Prop where
  message : Peg.Unescaped d.message
  labels : ∀ l ∈ d.labels, Peg.Unescaped l.message
  notes : ∀ note ∈ d.notes, Peg.Unescaped note

@[simp] theorem uncoloured_nil : Uncoloured [] := fun _ hf => absurd hf List.not_mem_nil

@[simp] theorem uncoloured_cons {f : Fragment} {fs : List Fragment} :
    Uncoloured (f :: fs) ↔ Unescaped f.text ∧ Uncoloured fs :=
  List.forall_mem_cons

theorem Uncoloured.append {before after : List Fragment} (h : Uncoloured before)
    (h' : Uncoloured after) : Uncoloured (before ++ after) :=
  List.forall_mem_append.mpr ⟨h, h'⟩

theorem Uncoloured.flatMap {α : Type} {items : List α} {layout : α → List Fragment}
    (h : ∀ item ∈ items, Uncoloured (layout item)) : Uncoloured (items.flatMap layout) := by
  intro f hf
  obtain ⟨item, hitem, hf⟩ := List.mem_flatMap.mp hf
  exact h item hitem f hf

@[simp] theorem Fragment.plain_text (text : String) : (Fragment.plain text).text = text := rfl

theorem Severity.unescaped_word (s : Severity) : Unescaped s.word := by
  cases s <;> decide

theorem Span.unescaped_render (s : Span) : Unescaped s.render := by
  simp only [Span.render, unescaped_append, unescaped_toString, unescaped_number]
  decide

namespace Label

theorem unescaped_marker (l : Label) : Unescaped l.marker := by
  rw [marker]
  split <;> decide

theorem layoutBare_uncoloured {l : Label} (h : Unescaped l.message) : Uncoloured l.layoutBare := by
  simp only [layoutBare, uncoloured_cons, uncoloured_nil, Fragment.plain_text, unescaped_append,
    unescaped_toString, l.unescaped_marker, l.span.unescaped_render, h, true_and, and_true]
  decide

/-- The line that is shown with a label is a part of the source. -/
theorem layoutIn_uncoloured {source : Source} (hsource : source.Unescaped) {l : Label}
    (h : Unescaped l.message) : Uncoloured (l.layoutIn source) := by
  have hline := (LineTable.ofText source.text).unescaped_line hsource.text
  simp only [layoutIn, uncoloured_cons, uncoloured_nil, Fragment.plain_text, unescaped_append,
    unescaped_toString, unescaped_number, unescaped_spaces, unescaped_underline, hsource.name,
    l.unescaped_marker, hline, h, true_and, and_true]
  decide

theorem layout_uncoloured {source : Option Source} (hsource : ∀ s, source = some s → s.Unescaped)
    {l : Label} (h : Unescaped l.message) : Uncoloured (l.layout source) := by
  cases source with
  | none => exact layoutBare_uncoloured h
  | some s => exact layoutIn_uncoloured (hsource s rfl) h

end Label

namespace Diagnostic

theorem layoutNote_uncoloured {note : String} (h : Peg.Unescaped note) :
    Uncoloured (layoutNote note) := by
  simp only [layoutNote, uncoloured_cons, uncoloured_nil, Fragment.plain_text, unescaped_append,
    unescaped_toString, h, and_true]
  decide

theorem layout_uncoloured {source : Option Source} (hsource : ∀ s, source = some s → s.Unescaped)
    {d : Diagnostic} (h : d.Unescaped) : Uncoloured (d.layout source) := by
  have hhead : Uncoloured [⟨d.severity.style, d.severity.word⟩, ⟨.bold, s!": {d.message}"⟩,
      .plain "\n"] := by
    simp only [uncoloured_cons, uncoloured_nil, Fragment.plain_text, unescaped_append,
      unescaped_toString, d.severity.unescaped_word, h.message, true_and, and_true]
    decide
  have hlabels : Uncoloured (d.labels.flatMap (·.layout source)) :=
    .flatMap fun l hl => Label.layout_uncoloured hsource (h.labels l hl)
  have hnotes : Uncoloured (d.notes.flatMap layoutNote) :=
    .flatMap fun note hnote => layoutNote_uncoloured (h.notes note hnote)
  have hend : Uncoloured [.plain "\n"] := uncoloured_cons.mpr ⟨by decide, uncoloured_nil⟩
  exact ((hhead.append hlabels).append hnotes).append hend

theorem unescaped_plural (n : Nat) : Peg.Unescaped (plural n) := by
  rw [plural]
  split <;> decide

/-- The closing line has numbers only. -/
theorem summary_uncoloured (errors warnings : Nat) : Uncoloured (summary errors warnings) := by
  have hprevious : Peg.Unescaped
      (if errors = 1 then "previous error" else s!"{errors} previous errors") := by
    split
    · decide
    · simp only [unescaped_append, unescaped_number, unescaped_toString]
      decide
  have hemitted : Peg.Unescaped s!"{warnings} warning{plural warnings} emitted" := by
    simp only [unescaped_append, unescaped_number, unescaped_toString, unescaped_plural]
    decide
  rw [summary]
  split
  · split
    · simp only [uncoloured_cons, uncoloured_nil, Fragment.plain_text, unescaped_append,
        unescaped_toString, hprevious, hemitted, and_true]
      decide
    · simp only [uncoloured_cons, uncoloured_nil, Fragment.plain_text, unescaped_append,
        unescaped_toString, hprevious, and_true]
      decide
  · split
    · simp only [uncoloured_cons, uncoloured_nil, Fragment.plain_text, unescaped_append,
        unescaped_toString, hemitted, and_true]
      decide
    · exact uncoloured_nil

/-- What a series of calls lays out has escape characters only where the given strings do. -/
theorem calls_uncoloured {source : Option Source} {calls : List Call}
    (hsource : ∀ s, source = some s → s.Unescaped)
    (hcalls : ∀ d, .emit d ∈ calls → d.Unescaped) :
    Uncoloured (calls.flatMap (·.layout source)) := by
  apply Uncoloured.flatMap
  intro call hcall
  cases call with
  | emit d => exact layout_uncoloured hsource (hcalls d hcall)
  | summary errors warnings => exact summary_uncoloured errors warnings

/-! ## Two runs -/

/-- Without colours the fragments are written as they are. -/
theorem unescaped_of_uncoloured {fs : List Fragment} (h : Uncoloured fs) :
    Peg.Unescaped (String.join (fs.map (·.render false))) := by
  induction fs with
  | nil => decide
  | cons f fs ih =>
    obtain ⟨hf, hfs⟩ := uncoloured_cons.mp h
    rw [List.map_cons, String.join_cons, unescaped_append]
    exact ⟨hf, ih hfs⟩

theorem shown_join {fs : List Fragment} (h : Uncoloured fs) :
    shown .outside (String.join (fs.map (·.render true))).toList =
      (String.join (fs.map (·.render false))).toList := by
  induction fs with
  | nil => rfl
  | cons f fs ih =>
    obtain ⟨hf, hfs⟩ := uncoloured_cons.mp h
    have hplain : f.render false = f.text := rfl
    rw [List.map_cons, List.map_cons, String.join_cons, String.join_cons, String.toList_append,
      String.toList_append, Fragment.shown_render hf, ih hfs, hplain]

/-- Whatever diagnostics and summaries are written, each of its own or several at once, with or
    without a source: if no string that is given has an escape character, then deleting the escape
    sequences from what is written in colours leaves what is written without colours, which has no
    escape character. -/
theorem colours_are_escapes (source : Option Source) (requests : List Request)
    (hsource : ∀ s, source = some s → s.Unescaped)
    (hrequests : ∀ r ∈ requests, ∀ d ∈ r.diagnostics, d.Unescaped) :
    shown .outside (transcript true source (requests.flatMap (·.calls))).toList =
        (transcript false source (requests.flatMap (·.calls))).toList ∧
      escape ∉ (transcript false source (requests.flatMap (·.calls))).toList := by
  have h : Uncoloured ((requests.flatMap (·.calls)).flatMap (·.layout source)) := by
    apply calls_uncoloured hsource
    intro d hd
    obtain ⟨r, hr, hd⟩ := List.mem_flatMap.mp hd
    exact hrequests r hr d (Request.emit_mem_calls.mp hd)
  exact ⟨shown_join h, unescaped_of_uncoloured h⟩

/-- A warning with a label of each kind and a note, on the second of two lines. -/
def labelled : Diagnostic :=
  (((warning.withMessage "m").withLabel ⟨2, 3⟩ "here").withSecondaryLabel ⟨0, 1⟩ "there").withNote
    "n"

/-- The warning is written, and then that there was one. -/
theorem colours_are_escapes_labelled :
    Source.Unescaped ⟨"input", "a\nb".toList⟩ ∧ labelled.Unescaped ∧
    shown .outside (transcript true (some ⟨"input", "a\nb".toList⟩)
        ([Request.emitAll [labelled], .summary 0 1].flatMap (·.calls))).toList =
      ("warning: m\n --> input:2:1\n  |\n2 | b\n  | ^ here\n ::: input:1:1\n  |\n1 | a\n" ++
        "  | ^ there\n  = note: n\n\nwarning: 1 warning emitted\n").toList := by
  have hsource : Source.Unescaped ⟨"input", "a\nb".toList⟩ := ⟨by decide, by decide⟩
  have hlabelled : labelled.Unescaped := ⟨by decide, by decide, by decide⟩
  have hshown := (colours_are_escapes (some ⟨"input", "a\nb".toList⟩)
    [.emitAll [labelled], .summary 0 1] (fun s hs => Option.some.inj hs ▸ hsource)
    (fun r hr d hd => by
      obtain rfl : d = labelled := by
        simp only [List.mem_cons, List.not_mem_nil, or_false] at hr
        rcases hr with rfl | rfl
        · exact List.mem_singleton.mp hd
        · cases hd
      exact hlabelled)).1
  refine ⟨hsource, hlabelled, hshown.trans ?_⟩
  decide +kernel

end Diagnostic

end Peg
