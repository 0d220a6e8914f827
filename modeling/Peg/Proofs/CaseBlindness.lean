/-
  Peg.Proofs.CaseBlindness

  A parse without case does not see case. On two texts that differ in the case of
  ASCII letters only, a parser that ignores case takes the same course: it matches
  both or neither, ends at the same place, and leaves the same failure on record.
  Skippers are parsed with case, and actions, hooks and narrowing see values, which
  show how the text is written; so there are none of these here.
-/
import Peg.Grammar.Notation
import Peg.Proofs.CaseFolding
import Peg.Proofs.Regimes

namespace Peg

open Text

/-! ## The same letters -/

/-- The texts differ in the case of ASCII letters at most, character by character. -/
def Text.Recased (t t' : Text) : Prop :=
  List.Forall₂ (fun c c' : Char => c'.toLower = c.toLower) t t'

instance (t t' : Text) : Decidable (t.Recased t') :=
  inferInstanceAs (Decidable (List.Forall₂ (fun c c' : Char => c'.toLower = c.toLower) t t'))

namespace Text.Recased

variable {t t' : Text}

/-- In lower case the texts are the same. -/
theorem map_toLower (h : t.Recased t') : t'.map Char.toLower = t.map Char.toLower := by
  induction h with
  | nil => rfl
  | cons hc _ ih => rw [List.map_cons, List.map_cons, hc, ih]

theorem byteLength_eq (h : t.Recased t') : byteLength t' = byteLength t := by
  induction h with
  | nil => rfl
  | @cons c c' _ _ hc _ ih =>
    rw [byteLength_cons, byteLength_cons, ih, ← utf8Size_toLower c', hc, utf8Size_toLower]

end Text.Recased

/-- The parses of two texts with the same letters. -/
def Parallel.recased (source source' : Text) (rules : String → Option Definition)
    (h : source.Recased source') : Parallel where
  env := .of source rules
  env' := .of source' rules
  shift := 0
  chars c c' := c'.toLower = c.toLower
  sameValues := False
  lost _ := False
  rules_eq := rfl
  length_eq := h.byteLength_eq
  size_eq {c c'} hc := by rw [← utf8Size_toLower c', hc, utf8Size_toLower]
  chars_eq h := h.elim

/-! ## What does not see case -/

/-- The node and its own terminals and hooks do not tell the cases of a letter apart. -/
def Grammar.CaseBlind : Grammar → Prop
  | .terminal t => t.Proper
  | .action _ _ | .narrow _ _ _ | .skipWith _ _ => False
  | .rule r | .define r _ _ => r.Hookless
  | _ => True

/-- No skipper at all, and nothing in grammars and bodies of rules that sees case. -/
def Discipline.caseBlind : Discipline :=
  .every Grammar.CaseBlind (fun _ => False) fun _ _ h => h.self

theorem Parallel.allows_of_caseBlind {P : Parallel} {g : Grammar}
    (hg : g.All Grammar.CaseBlind) : P.Allows g := by
  have hself := hg.self
  cases g with
  | action p f => exact hself.elim
  | narrow t f p => exact hself.elim
  | rule r => exact .inr hself
  | define r force body => exact .inr hself
  | _ => trivial

/-! ## The same course -/

/-- At the same place, with the same failure on record. -/
structure State.Level (st u : State) : Prop where
  offset : u.offset = st.offset
  failure : u.failure = st.failure

/-- The outcomes are of one kind and in level states. Values may differ. -/
inductive Outcome.SameCourse : Outcome → Outcome → Prop where
  | matched {v w : Value} {st u : State} (h : st.Level u) :
      SameCourse (.matched v st) (.matched w u)
  | failed {st u : State} (h : st.Level u) : SameCourse (.failed st) (.failed u)
  | stopped {why : Stop} {st u : State} (h : st.Level u) :
      SameCourse (.stopped ⟨why, st⟩) (.stopped ⟨why, u⟩)

/-- What takes the course of a failure is one. -/
theorem Outcome.SameCourse.of_failed {st : State} {o : Outcome}
    (h : (Outcome.failed st).SameCourse o) : ∃ u, o = .failed u ∧ st.Level u := by
  cases h with
  | failed h => exact ⟨_, rfl, h⟩

section Recased

variable {source source' : Text} {rules : String → Option Definition}
  {hsource : source.Recased source'} {st u : State}

/-- At the same place of both texts the states are beside each other. -/
theorem Parallel.recased_beside (hin : st.cursor.In source) {cursor : Cursor}
    (hin' : cursor.In source') (hoffset : cursor.offset = st.offset) :
    (recased source source' rules hsource).Beside st (st.moveTo cursor) := by
  obtain ⟨rest, hrest, hbeside⟩ := dropBytes?_beside (P := recased source source' rules hsource)
    hsource (Cursor.in_iff.mp hin)
  rw [show st.cursor.offset = cursor.offset from hoffset.symm, Cursor.in_iff.mp hin'] at hrest
  cases hrest
  refine .of_eq ⟨hin, hoffset, hbeside⟩ nofun ?_
  simp only [State.moveTo, recased]
  cases st.failure <;> rfl

theorem Parallel.level_of_beside (h : (recased source source' rules hsource).Beside st u) :
    st.Level u := by
  refine ⟨h.offset, h.failure.trans ?_⟩
  cases st.failure <;> rfl

theorem Parallel.sameCourse_of_ends {o o' : Outcome}
    (h : (recased source source' rules hsource).Ends o o') : o.SameCourse o' := by
  cases h with
  | matched hv h => exact .matched (level_of_beside h)
  | failed h => exact .failed (level_of_beside h)
  | stopped h => exact .stopped (level_of_beside h)
  | lost h => exact h.elim

end Recased

/-- A parser that ignores case takes the same course on texts that differ in the case of ASCII
    letters only: it matches both or neither, ends at the same place in both, and the same failure
    is on record. So it is for all characters, ranges, sets, words and tables in the parser, negated
    or not, ASCII or not. -/
theorem noCase_sameCourse (source source' : Text) (hsource : source.Recased source')
    (rules : String → Option Definition) (n : Nat) (g : Grammar) (ctx : Ctx) (st : State)
    (cursor : Cursor) (hin : st.cursor.In source) (hin' : cursor.In source')
    (hoffset : cursor.offset = st.offset) (hg : g.All Grammar.CaseBlind)
    (hrules : ∀ name d, rules name = some d → d.body.All Grammar.CaseBlind)
    (hskipper : ctx.skipper = none)
    (hctx : ∀ name d, ctx.chain.injected? name = some d → d.body.All Grammar.CaseBlind) :
    (parse (.of source rules) n (.noCase g) ctx st).SameCourse
      (parse (.of source' rules) n (.noCase g) ctx (st.moveTo cursor)) := by
  have hbeside : (Parallel.recased source source' rules hsource).Beside st (st.moveTo cursor) :=
    Parallel.recased_beside hin hin' hoffset
  cases n with
  | zero => exact .stopped (Parallel.level_of_beside hbeside)
  | succ n =>
    have hunder : ({ ctx with noCase := true } : Ctx).Under .caseBlind := by
      refine ⟨fun s hs => ?_, hctx⟩
      rw [show ({ ctx with noCase := true } : Ctx).skipper = none from hskipper] at hs
      cases hs
    have hsimulates : (Parallel.recased source source' rules hsource).Simulates
        (parse (.of source rules) n g { ctx with noCase := true })
        (parse (.of source' rules) n g { ctx with noCase := true }) := by
      apply parse_simulates (P := .recased source source' rules hsource) (D := .caseBlind)
        (M := fun noCase => noCase = true)
      · exact fun r d _ hd => hrules r.name d hd
      · exact Parallel.allows_of_caseBlind
      · rfl
      · -- both texts are scanned as their common lower case is
        rintro t _ ht rfl rest rest' hrest
        have hproper : t.Proper := ht.self
        rw [← t.scan_toLower hproper rest', Recased.map_toLower hrest, t.scan_toLower hproper]
      · exact fun _ h => h.elim
      · exact hg
      · exact hunder
      · rfl
    have hends := hsimulates st _ hbeside
    rw [parse_eq_step, parse_eq_step]
    exact Parallel.sameCourse_of_ends hends

open Notation in
/-- A unit, and then as a commit point no letter. The longer unit starts with a sign outside ASCII,
    whose lower case is a letter of ASCII. -/
def wholeUnit : Grammar :=
  Grammar.thenExpect
    (term (.symbols (.int .u32) (Symbols.ofList [("k", .int 1), ("\u212Am", .int 2)])))
    (term (.char (.negated (.named .lower))))

theorem wholeUnit_caseBlind : wholeUnit.All Grammar.CaseBlind := by
  intro x hx
  simp only [wholeUnit, Grammar.thenExpect, Notation.term, Grammar.nodes, Grammar.nodesOf,
    List.append_nil, List.mem_cons, List.mem_append, List.not_mem_nil, or_false] at hx
  obtain rfl | rfl | rfl | rfl := hx
  · trivial
  · exact Symbols.ofList_proper _
  · trivial
  · trivial

/-- In either case the longer unit is found, and the letter after it is missed as one. -/
theorem noCase_sameCourse_unit :
    (∃ st', parse (.of "kMx".toList fun _ => none) 8 (.noCase wholeUnit) { tracking := true }
        { cursor := .start "kMx".toList } = .failed st' ∧
      st'.failure.map (·.position) = some 2) ∧
    ∃ u, parse (.of "KmX".toList fun _ => none) 8 (.noCase wholeUnit) { tracking := true }
        { cursor := .start "KmX".toList } = .failed u ∧
      u.failure.map (·.position) = some 2 ∧ u.offset = 0 := by
  have hcourse := noCase_sameCourse "kMx".toList "KmX".toList (by decide) (fun _ => none) 8
    wholeUnit { tracking := true } { cursor := .start "kMx".toList } (.start "KmX".toList)
    (by decide) (by decide) rfl wholeUnit_caseBlind nofun rfl nofun
  have hmiss : ∃ st', parse (.of "kMx".toList fun _ => none) 8 (.noCase wholeUnit)
        { tracking := true } { cursor := .start "kMx".toList } = .failed st' ∧
      st'.failure.map (·.position) = some 2 ∧ st'.offset = 0 := ⟨_, rfl, rfl, rfl⟩
  obtain ⟨st', hst', hfailure, hoffset⟩ := hmiss
  refine ⟨⟨st', hst', hfailure⟩, ?_⟩
  rw [hst'] at hcourse
  obtain ⟨u, hu, hlevel⟩ := hcourse.of_failed
  refine ⟨u, hu, ?_, ?_⟩
  · rw [hlevel.failure, hfailure]
  · rw [hlevel.offset, hoffset]

end Peg
