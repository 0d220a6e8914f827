/-
  Peg.Proofs.CursorSafety

  No parse leaves the character boundaries of its text. The cursor only ever
  stands where a character or the end of the text starts, a match never moves it
  back, and every span that a hook sees and every place of a failure on record
  lies in the text. That the cursor is safe at every moment, and not only at the
  end, is said with a checked parse: it looks at the cursor whenever a parser
  begins or ends, and stops where one is off. It never does, and so it is the
  parse itself. The text is therefore what a run took followed by what it left.
-/
import Peg.Grammar.Notation
import Peg.Proofs.Approximation
import Peg.Proofs.Progress

namespace Peg

open Text

/-! ## Checked parses -/

/-- The answer, if the cursor is on a boundary of the text. -/
def guardCursor (t : Text) (st : State) (o : Outcome) : Outcome :=
  if st.cursor.In t then o else .stopped ⟨.offBoundary st.offset, st⟩

/-- The parser, with a look at the cursor when it begins and when it ends. -/
def checked (t : Text) (p : Step) : Step := fun st =>
  guardCursor t st ((p st).cases (fun v st' => guardCursor t st' (.matched v st'))
    (fun st' => guardCursor t st' (.failed st')))

/-- Parsing, with a look at the cursor whenever a parser begins or ends. -/
def parseChecked (env : Env) : Nat → Grammar → Ctx → State → Outcome
  | 0, _, _, st => .stopped ⟨.exhausted, st⟩
  | n + 1, g, ctx, st => checked env.source (Node.step env (parseChecked env n) g ctx) st

/-- The halt for a cursor off the boundaries. -/
def Halt.OffBoundary (h : Halt) : Prop := ∃ n, h.why = .offBoundary n

theorem guardCursor_of_in {t : Text} {st : State} (h : st.cursor.In t) (o : Outcome) :
    guardCursor t st o = o := if_pos h

theorem guardCursor_below (t : Text) (st : State) (o : Outcome) :
    (guardCursor t st o).Below Halt.OffBoundary o := by
  unfold guardCursor
  split
  · exact .refl o
  · exact .inr ⟨_, rfl, _, rfl⟩

/-- A check that does not stop the parser changes nothing. -/
theorem checked_below (t : Text) (p : Step) (st : State) :
    (checked t p st).Below Halt.OffBoundary (p st) := by
  refine (guardCursor_below ..).trans ?_
  have h := Outcome.Below.cases (.refl (p st))
    (fun v st' => guardCursor_below t st' (.matched v st'))
    (fun st' => guardCursor_below t st' (.failed st'))
  rwa [show (p st).cases .matched .failed = p st by cases p st <;> rfl] at h

theorem parseChecked_below (env : Env) (n : Nat) (g : Grammar) (ctx : Ctx) (st : State) :
    (parseChecked env n g ctx st).Below Halt.OffBoundary (parse env n g ctx st) := by
  -- the checks of the parsers below are below the parsers, and the check of the node adds its own
  induction n generalizing g ctx st with
  | zero => exact .refl _
  | succ n ih =>
    rw [parse_succ]
    exact (checked_below ..).trans (Node.step_below ih g ctx st)

/-- The halt is not about the cursor, and its state lies in the text. -/
def Halt.OnBoundary (t : Text) (h : Halt) : Prop :=
  (∀ n, h.why ≠ .offBoundary n) ∧ h.state.Sound t

/-- A parser that stays in the text passes the checks. -/
theorem checked_leads {t : Text} {halt : Halt → Prop} {g : Grammar} {p : Step} {st : State}
    (hs : st.Sound t) (h : (p st).Meets (Leads t halt g st)) :
    (checked t p st).Meets (Leads t halt g st) := by
  rw [checked, guardCursor_of_in hs.cursor, Outcome.meets_cases]
  refine h.mono (fun v st1 h1 => ?_) (fun st1 h1 => ?_) (fun _ hh => hh)
  · simp only [guardCursor_of_in h1.1.1.cursor]
    exact h1
  · simp only [guardCursor_of_in h1.1.cursor]
    exact h1

theorem parseChecked_leads (env : Env) (n : Nat) (g : Grammar) (ctx : Ctx) (st : State)
    (hs : st.Sound env.source) :
    (parseChecked env n g ctx st).Meets (Leads env.source (Halt.OnBoundary env.source) g st) := by
  -- where the node begins is sound, and from there its parts begin onward only
  induction n generalizing g ctx st with
  | zero => exact ⟨nofun, hs⟩
  | succ n ih =>
    refine checked_leads hs (Node.step_leads g ctx st hs ?_ fun _ _ _ => ⟨nofun, hs⟩)
    exact fun _ st1 h1 _ => ih _ _ st1 h1.1

/-- The checks never stop a parse that begins in the text. -/
theorem parseChecked_eq (env : Env) (n : Nat) (g : Grammar) (ctx : Ctx) (st : State)
    (hs : st.Sound env.source) : parseChecked env n g ctx st = parse env n g ctx st := by
  -- a check that stopped the parse would be a halt for a cursor off the boundaries
  refine (parseChecked_below env n g ctx st).eq_of_not fun hlt he ⟨k, hk⟩ => ?_
  have h := parseChecked_leads env n g ctx st hs
  rw [he] at h
  exact h.1 k hk

/-! ## Whole parses -/

theorem parse_leads (env : Env) (n : Nat) (g : Grammar) (ctx : Ctx) (st : State)
    (hs : st.Sound env.source) :
    (parse env n g ctx st).Meets (Leads env.source (Halt.OnBoundary env.source) g st) :=
  parseChecked_eq env n g ctx st hs ▸ parseChecked_leads env n g ctx st hs

/-- The text and the report of a run that ends in a state of the text. -/
def Program.Run.Inside (source : Text) (r : Program.Run) : Prop :=
  (∀ i ∈ r.journal, i.Inside source) ∧
  (∀ f, r.result.failure = some f → source.IsBoundary f.position) ∧
  ∃ taken, takeBytes? source r.result.position = some taken ∧
    source = taken ++ r.result.remainder source

theorem Program.report_inside {source : Text} {matched : Bool} {slot : Value} {st : State}
    (hs : st.Sound source) : (Program.report source matched slot st).Inside source := by
  refine ⟨fun i hi => hs.journal i (List.mem_reverse.mp hi), hs.failure, ?_⟩
  -- the cursor tells how the text is cut in two
  obtain ⟨taken, ht, ho⟩ := hs.cursor
  have ho : st.offset = byteLength taken := ho
  refine ⟨taken, ?_, ?_⟩
  · show takeBytes? source st.offset = some taken
    rw [ho, ht]
    exact takeBytes?_append taken st.cursor.rest
  · show source = taken ++ (dropBytes? source st.offset).getD []
    rw [dropBytes?_eq_some_iff.mpr ⟨taken, ht, ho⟩]
    exact ht

/-- Parsing is safe for the cursor. From a state in the text, the checks of a checked parse never
    stop it; a match ends in the text at or after the place where it began, and a failure in the
    text; no halt is about the cursor, and until a halt everything was in the text as well. For a
    run, the spans of all hooks and the places of all failures lie in the text, and the text is
    what the run took followed by what it left. -/
theorem cursor_safe :
    (∀ (env : Env) (n : Nat) (g : Grammar) (ctx : Ctx) (st : State), st.Sound env.source →
      parseChecked env n g ctx st = parse env n g ctx st ∧
      (parse env n g ctx st).Meets
        ⟨fun _ st' => st'.Sound env.source ∧ st.offset ≤ st'.offset ∧
            st'.offset ≤ byteLength env.source,
          fun st' => st'.Sound env.source,
          fun h => h.state.Sound env.source ∧ ∀ k, h.why ≠ .offBoundary k⟩) ∧
    ∀ (p : Program) (fuel : Nat) (options : ParseOptions) (target : Ty) (slot : Value)
      (source : Text),
      Settles (p.runWithin fuel options target slot source) (fun r => r.Inside source)
        (fun h => h.state.Sound source ∧ ∀ k, h.why ≠ .offBoundary k) := by
  refine ⟨fun env n g ctx st hs => ⟨parseChecked_eq env n g ctx st hs, ?_⟩,
    fun p fuel options target slot source => ?_⟩
  · exact (parse_leads env n g ctx st hs).mono
      (fun _ _ h1 => ⟨h1.1.1, h1.1.2, h1.1.1.cursor.isBoundary.le⟩) (fun _ h1 => h1.1)
      (fun _ hh => ⟨hh.2, hh.1⟩)
  · have hparse := parse_leads (p.env source) fuel
    refine (runWithin_onward (hparse p.grammar (p.context options) _ (.start source))
      fun st hs _ _ _ _ st1 h1 _ => hparse _ _ st1 h1.1).mono (fun r hr => ?_)
      (fun _ hh => ⟨hh.2, hh.1⟩)
    obtain ⟨matched, slot', st, rfl, hs⟩ := hr
    exact Program.report_inside hs

open Notation in
/-- Letters of two bytes each, with commas before them. -/
def accents : Grammar := kleene (lit ',' >>> char 'é')

/-- The cursor after the first letter. -/
def State.afterLetter : State := { cursor := ⟨2, ",é".toList⟩ }

/-- From the end of the first letter the parser goes over a comma and the second letter, to the end
    of the text, and every check on the way passes. -/
theorem cursor_safe_wide :
    State.afterLetter.Sound "é,é".toList ∧
    ∃ v st', parse (.of "é,é".toList fun _ => none) 8 accents {} .afterLetter = .matched v st' ∧
      parseChecked (.of "é,é".toList fun _ => none) 8 accents {} .afterLetter = .matched v st' ∧
      st'.offset = 5 ∧ st'.Sound "é,é".toList ∧ st'.offset ≤ byteLength "é,é".toList := by
  have hs : State.afterLetter.Sound "é,é".toList := ⟨by decide, nofun, nofun⟩
  have h := cursor_safe.1 (.of "é,é".toList fun _ => none) 8 accents {} .afterLetter hs
  refine ⟨hs, _, _, rfl, h.1, rfl, ?_⟩
  have hend := h.2
  exact ⟨hend.1, hend.2.2⟩

end Peg
