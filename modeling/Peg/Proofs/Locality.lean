/-
  Peg.Proofs.Locality

  A parse depends on what is left of the text and not on what came before it. With
  more text in front, everything happens so many bytes later: the parse answers
  the same, takes as many bytes, and puts the same failure on record so many bytes
  later. Hooks can tell the difference, as they see spans and the whole text; so
  this is about grammars, rules and skippers without any.
-/
import Peg.Grammar.Notation
import Peg.Proofs.Regimes

namespace Peg

open Text

/-! ## Later -/

/-- The place so many bytes later, with as much text left. -/
def Cursor.later (n : Nat) (c : Cursor) : Cursor := ⟨c.offset + n, c.rest⟩

/-- The state so many bytes later. -/
def State.later (n : Nat) (st : State) : State :=
  { st with cursor := st.cursor.later n, failure := st.failure.map (·.later n) }

/-- The outcome so many bytes later: the same value, the same description of a failure. -/
def Outcome.later (n : Nat) : Outcome → Outcome
  | .matched v st => .matched v (st.later n)
  | .failed st => .failed (st.later n)
  | .stopped h => .stopped ⟨h.why, h.state.later n⟩

/-- The parses of a text with and without something before it. -/
def Parallel.shifted (before source : Text) (rules : String → Option Definition) : Parallel where
  env := .of source rules
  env' := .of (before ++ source) rules
  shift := byteLength before
  chars c c' := c' = c
  sameValues := True
  lost _ := False
  rules_eq := rfl
  length_eq := by
    show byteLength (before ++ source) = byteLength source + byteLength before
    rw [byteLength_append, Nat.add_comm]
  size_eq h := congrArg Char.utf8Size h
  chars_eq _ _ _ h := h

section Shifted

variable {before source : Text} {rules : String → Option Definition} {st u : State}

theorem Parallel.shifted_beside (hin : st.cursor.In source) :
    (shifted before source rules).Beside st (st.later (byteLength before)) := by
  refine .of_eq ⟨hin, rfl, ?_⟩ (fun _ => rfl) rfl
  exact List.forall₂_same.mpr fun _ _ => rfl

/-- What is beside a state is the state so many bytes later. -/
theorem Parallel.later_of_beside (h : (shifted before source rules).Beside st u) :
    (st.later (byteLength before)).SameButJournal u := by
  obtain ⟨cursor, ruleVar, journal, hc, hv⟩ := h
  have hcursor : cursor = st.cursor.later (byteLength before) := by
    have hrest : cursor.rest = st.cursor.rest := hc.rest_eq trivial
    have hoffset : cursor.offset = st.cursor.offset + byteLength before := hc.offset
    rw [Cursor.later, ← hrest, ← hoffset]
  have hvar : ruleVar = st.ruleVar := hv trivial
  rw [State.SameButJournal, hcursor, hvar]
  rfl

theorem Parallel.later_of_ends {o o' : Outcome} (h : (shifted before source rules).Ends o o') :
    (o.later (byteLength before)).SameButJournal o' := by
  cases h with
  | matched hv h => exact ⟨hv trivial, later_of_beside h⟩
  | failed h => exact later_of_beside h
  | stopped h => exact ⟨rfl, later_of_beside h⟩
  | lost h => exact h.elim

end Shifted

/-! ## No hooks -/

/-- The node runs no action, and is no rule with a hook. -/
def Grammar.Inert : Grammar → Prop
  | .action _ _ => False
  | .rule r | .define r _ _ => r.Hookless
  | _ => True

/-- No action and no hook in grammars, skippers and bodies of rules. -/
def Discipline.inert : Discipline :=
  .every Grammar.Inert (Grammar.All Grammar.Inert) fun _ _ h => h.child List.mem_cons_self

theorem Parallel.allows_of_inert {P : Parallel} (hv : P.sameValues) {g : Grammar}
    (hg : g.All Grammar.Inert) : P.Allows g := by
  have hself := hg.self
  cases g with
  | action p f => exact hself.elim
  | narrow t f p => exact hv
  | rule r => exact .inr hself
  | define r force body => exact .inr hself
  | _ => trivial

/-! ## Locality -/

/-- A parse depends on the text that is left only. With more text before it, a parser without
    actions and hooks comes to the same outcome so many bytes later: it matches or not, yields the
    same value, takes as many bytes, and what was expected is recorded so many bytes later. -/
theorem parse_later (before source : Text) (rules : String → Option Definition) (n : Nat)
    (g : Grammar) (ctx : Ctx) (st : State) (hin : st.cursor.In source)
    (hg : g.All Grammar.Inert) (hrules : ∀ name d, rules name = some d → d.body.All Grammar.Inert)
    (hskipper : ∀ s, ctx.skipper = some s → s.All Grammar.Inert)
    (hctx : ∀ name d, ctx.chain.injected? name = some d → d.body.All Grammar.Inert) :
    ((parse (.of source rules) n g ctx st).later (byteLength before)).SameButJournal
      (parse (.of (before ++ source) rules) n g ctx (st.later (byteLength before))) := by
  have hsimulates : (Parallel.shifted before source rules).Simulates
      (parse (.of source rules) n g ctx) (parse (.of (before ++ source) rules) n g ctx) := by
    apply parse_simulates (P := .shifted before source rules) (D := .inert) (M := fun _ => True)
    · exact fun r d _ hd => hrules r.name d hd
    · exact Parallel.allows_of_inert trivial
    · trivial
    · exact fun _ _ => Parallel.scan_of_sameValues trivial rfl
    · exact fun s hs => ⟨hs, trivial⟩
    · exact hg
    · exact ⟨hskipper, hctx⟩
    · trivial
  exact Parallel.later_of_ends (hsimulates st _ (Parallel.shifted_beside hin))

def numberRule : Rule := { name := "number", ty := .int .u32 }

open Notation in
/-- A word, and then a number as a commit point. -/
def declaration : Grammar := Grammar.thenExpect (word "let") (call numberRule)

open Notation in
/-- The rule for numbers. -/
def numberRules (name : String) : Option Definition :=
  if name = "number" then some ⟨uint, false⟩ else none

theorem inert_terminal (t : Terminal) : (Grammar.terminal t).All Grammar.Inert := by
  intro x hx
  obtain rfl : x = .terminal t := List.mem_singleton.mp hx
  trivial

theorem declaration_inert : declaration.All Grammar.Inert := by
  intro x hx
  have hparts : x = declaration ∨ x = Notation.word "let" ∨
      x = .expect (Notation.call numberRule) ∨ x = Notation.call numberRule := by
    simpa [declaration, Grammar.thenExpect, Grammar.nodes, Grammar.nodesOf, Notation.word,
      Notation.term, Notation.call] using hx
  obtain rfl | rfl | rfl | rfl := hparts
  · trivial
  · trivial
  · trivial
  · exact ⟨rfl, rfl⟩

theorem numberRules_inert (name : String) (d : Definition) (h : numberRules name = some d) :
    d.body.All Grammar.Inert := by
  unfold numberRules at h
  split at h
  · cases h
    exact inert_terminal _
  · cases h

open Notation in
/-- Without a number after the word, the miss is recorded where the blank ends. With three bytes
    more before the word it is recorded three bytes later, and the cursor is back before the word. -/
theorem parse_later_declaration :
    (∃ st', parse (.of "let x".toList numberRules) 8 declaration
        { skipper := some space, tracking := true } { cursor := .start "let x".toList } =
          .failed st' ∧
      st'.failure = some ⟨4, "number"⟩) ∧
    ∃ u, parse (.of "é let x".toList numberRules) 8 declaration
        { skipper := some space, tracking := true } { cursor := ⟨3, "let x".toList⟩ } = .failed u ∧
      u.failure = some ⟨7, "number"⟩ ∧ u.offset = 3 := by
  have hlater := parse_later "é ".toList "let x".toList numberRules 8 declaration
    { skipper := some space, tracking := true } { cursor := .start "let x".toList } (by decide)
    declaration_inert numberRules_inert
    (fun s hs => by cases hs; exact inert_terminal _) nofun
  have hmiss : ∃ st', parse (.of "let x".toList numberRules) 8 declaration
      { skipper := some space, tracking := true } { cursor := .start "let x".toList } =
        .failed st' ∧ st'.failure = some ⟨4, "number"⟩ ∧ st'.offset = 0 := ⟨_, rfl, rfl, rfl⟩
  obtain ⟨st', hst', hfailure, hoffset⟩ := hmiss
  refine ⟨⟨st', hst', hfailure⟩, ?_⟩
  rw [hst'] at hlater
  obtain ⟨u, hu, hsame⟩ := hlater.of_failed
  refine ⟨u, hu, ?_, ?_⟩
  · rw [hsame]
    show st'.failure.map _ = _
    rw [hfailure]
    rfl
  · rw [hsame]
    show st'.offset + 3 = 3
    rw [hoffset]

end Peg
