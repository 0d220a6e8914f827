/-
  Peg.Proofs.Progress

  Where the parsers that a node runs begin, and where they lead. A state lies in
  the text when its cursor, its journal and its failure do. From such a state a
  match leads onward and a failure back, every terminal of one character takes
  something, and loops end because each round that goes on has moved. One lemma
  says this of all kinds of nodes, and it tells for each parser that a node runs
  in which context it runs and whether something was taken before it; what else
  is asked of a halt is left open.
-/
import Peg.Proofs.Postcondition
import Peg.Proofs.Boundary
import Peg.Proofs.Runs

namespace Peg

open Text

/-! ## States that lie in a text -/

/-- The span starts and ends on boundaries of the text, in order. -/
def Span.Inside (s : Span) (t : Text) : Prop :=
  s.start ≤ s.stop ∧ s.stop ≤ byteLength t ∧ t.IsBoundary s.start ∧ t.IsBoundary s.stop

/-- What the incident tells lies in the text: the span of a hook, or the place of a failure. -/
def Incident.Inside (t : Text) : Incident → Prop
  | .entered _ | .left _ => True
  | .missed f => t.IsBoundary f.position
  | .acted s | .succeeded _ s | .reported _ s => s.Inside t

/-- The cursor, the journal and the failure on record lie in the text. -/
structure State.Sound (t : Text) (st : State) : Prop where
  cursor : st.cursor.In t
  journal : ∀ i ∈ st.journal, i.Inside t
  failure : ∀ f, st.failure = some f → t.IsBoundary f.position

namespace State.Sound

variable {t : Text} {st st' : State}

theorem start (t : Text) : State.Sound t { cursor := .start t } :=
  ⟨Cursor.start_in t, nofun, nofun⟩

/-- Only the cursor, the journal and the failure matter. -/
theorem congr (h : st.Sound t) (hc : st'.cursor = st.cursor) (hj : st'.journal = st.journal)
    (hf : st'.failure = st.failure) : st'.Sound t :=
  ⟨hc ▸ h.cursor, hj ▸ h.journal, hf ▸ h.failure⟩

theorem moveTo (h : st.Sound t) {c : Cursor} (hc : c.In t) : (st.moveTo c).Sound t :=
  ⟨hc, h.journal, h.failure⟩

theorem mark (h : st.Sound t) {i : Incident} (hi : i.Inside t) : (st.mark i).Sound t :=
  ⟨h.cursor, List.forall_mem_cons.mpr ⟨hi, h.journal⟩, h.failure⟩

/-- A failure at the cursor may be offered for the record. -/
theorem record (h : st.Sound t) (which : String) : (st.record ⟨st.offset, which⟩).Sound t := by
  have hb : t.IsBoundary st.offset := h.cursor.isBoundary
  refine ⟨h.cursor, List.forall_mem_cons.mpr ⟨hb, h.journal⟩, fun f hf => ?_⟩
  rw [record_failure, Failure.record] at hf
  -- the record keeps the failure that it had, or takes the new one
  split at hf
  · exact h.failure f hf
  · cases hf
    exact hb

end State.Sound

/-- `st'` lies in the text and is not behind `st`. -/
def State.Onward (t : Text) (st st' : State) : Prop := st'.Sound t ∧ st.offset ≤ st'.offset

namespace State.Onward

variable {t : Text} {st st1 st2 : State}

theorem refl (h : st.Sound t) : st.Onward t st := ⟨h, Nat.le_refl _⟩

theorem trans (h : st.Onward t st1) (h' : st1.Onward t st2) : st.Onward t st2 :=
  ⟨h'.1, Nat.le_trans h.2 h'.2⟩

/-- What was taken between two states is a span of the text. -/
theorem inside (h : st1.Onward t st2) (h1 : st1.Sound t) :
    Span.Inside ⟨st1.offset, st2.offset⟩ t :=
  ⟨h.2, h.1.cursor.isBoundary.le, h1.cursor.isBoundary, h.1.cursor.isBoundary⟩

end State.Onward

/-! ## Where a parser leads -/

/-- A parser that begins at `st` stays in the text: a match leads onward, and a failure back. -/
def Stays (t : Text) (halt : Halt → Prop) (st : State) : Post :=
  ⟨fun _ st' => st.Onward t st', fun st' => st'.Sound t ∧ st'.cursor = st.cursor, halt⟩

/-- The parser `g` stays in the text, and takes something if it is a character. -/
def Leads (t : Text) (halt : Halt → Prop) (g : Grammar) (st : State) : Post :=
  ⟨fun _ st' => st.Onward t st' ∧ (g.isCharacter = true → st.offset < st'.offset),
    fun st' => st'.Sound t ∧ st'.cursor = st.cursor, halt⟩

variable {t : Text} {halt : Halt → Prop}

theorem Outcome.Meets.stays {g : Grammar} {st : State} {o : Outcome}
    (h : o.Meets (Leads t halt g st)) : o.Meets (Stays t halt st) :=
  h.mono (fun _ _ h1 => h1.1) (fun _ h1 => h1) (fun _ hh => hh)

theorem Outcome.Meets.leads {g : Grammar} {st : State} {o : Outcome}
    (h : o.Meets (Stays t halt st)) (hg : g.isCharacter = false) :
    o.Meets (Leads t halt g st) := by
  refine h.mono (fun _ _ h1 => ⟨h1, fun hc => ?_⟩) (fun _ h1 => h1) (fun _ hh => hh)
  rw [hg] at hc
  cases hc

/-- A failure back at `st` is not behind it. -/
theorem State.Onward.back {st st1 : State} (h : st1.Sound t ∧ st1.cursor = st.cursor) :
    st.Onward t st1 :=
  ⟨h.1, Nat.le_of_eq (congrArg Cursor.offset h.2.symm)⟩

/-- A parser that begins where `st` stands stays in the text for `st` as well. -/
theorem Outcome.Meets.after {st st1 : State} {o : Outcome} (h : o.Meets (Stays t halt st1))
    (hc : st1.cursor = st.cursor) : o.Meets (Stays t halt st) := by
  refine h.mono (fun _ st2 h2 => ⟨h2.1, ?_⟩) (fun _ h2 => ⟨h2.1, h2.2.trans hc⟩) (fun _ hh => hh)
  rw [← State.offset_def st, ← hc]
  exact h2.2

namespace Node

variable {env : Env} {rec : Grammar → Ctx → Step} {ctx : Ctx} {p q : Step} {st st1 : State}

/-- After a way onward, a parser leads onward whether it matches or not. -/
theorem meets_onward (h : st.Onward t st1) {o : Outcome} (ho : o.Meets (Stays t halt st1)) :
    o.Meets ⟨fun _ st2 => st.Onward t st2, fun st2 => st.Onward t st2, halt⟩ :=
  ho.mono (fun _ _ h' => h.trans h') (fun _ h' => h.trans (.back h')) (fun _ h' => h')

/-- After a way onward, a match leads onward, and from a failure one can go back. -/
theorem meets_restored (hs : st.Sound t) (h : st.Onward t st1) {o : Outcome}
    (ho : o.Meets (Stays t halt st1)) :
    o.Meets ⟨fun _ st2 => st.Onward t st2,
      fun st2 => (st2.moveTo st.cursor).Sound t ∧ (st2.moveTo st.cursor).cursor = st.cursor,
      halt⟩ :=
  ho.mono (fun _ _ h' => h.trans h') (fun _ h' => ⟨h'.1.moveTo hs.cursor, rfl⟩) (fun _ h' => h')

/-! ## Loops

A loop is given one round more than there are bytes left. Each round that goes on
has moved, so a round is always left. -/

/-- The invariant of a loop that began at `st`: it came onward, and has more rounds left than
    bytes. -/
structure Looping (t : Text) (st : State) (n : Nat) (st1 : State) : Prop where
  onward : st.Onward t st1
  enough : byteLength t < st1.offset + n

namespace Looping

variable {n : Nat} {st2 : State}

theorem start (h : st.Onward env.source st1) : Looping env.source st (rounds env st1) st1 := by
  refine ⟨h, ?_⟩
  rw [rounds, env.length_eq]
  omega

/-- A round is always left. -/
theorem not_spent : ¬ Looping t st 0 st1 := by
  intro h
  have hle := h.onward.1.cursor.isBoundary.le
  have hlt := h.enough
  rw [State.offset_def] at hle
  omega

/-- A round that does not move is the last one; a round that does leaves enough rounds again. -/
theorem next (h : Looping t st (n + 1) st1) (h2 : st1.Onward t st2) :
    (st2.offset = st1.offset → st.Onward t st2) ∧
      (st2.offset ≠ st1.offset → Looping t st n st2) := by
  refine ⟨fun _ => h.onward.trans h2, fun hmoved => ⟨h.onward.trans h2, ?_⟩⟩
  have hlt := h.enough
  have hle := h2.2
  omega

end Looping

section Loops

variable (hp : ∀ st1, st.Onward t st1 → (p st1).Meets (Stays t halt st1))
  (hq : ∀ st1, st.Onward t st1 → (q st1).Meets (Stays t halt st1))

include hp

theorem skipLoop_onward {n : Nat} (h : Looping t st n st) :
    Settles (skipLoop p n st) (st.Onward t) halt := by
  refine skipLoop_settles (Looping t st) (fun _ h1 => absurd h1 Looping.not_spent)
    (fun k st1 h1 => ?_) n st h
  exact (hp st1 h1.onward).mono (fun _ _ h2 => h1.next h2)
    (fun _ h2 => h1.onward.trans (.back h2)) (fun _ hh => hh)

theorem repeatLoop_onward {n : Nat} (vs : List Value) (h : Looping t st n st1) :
    Settles (repeatLoop p n vs st1) (fun r => st.Onward t r.2) halt := by
  refine repeatLoop_settles (fun k _ st1 => Looping t st k st1)
    (fun _ _ h1 => absurd h1 Looping.not_spent) (fun k vs st1 h1 => ?_) n vs st1 h
  exact (hp st1 h1.onward).mono (fun _ _ h2 => h1.next h2)
    (fun _ h2 => h1.onward.trans (.back h2)) (fun _ hh => hh)

theorem repeatUpTo_onward (n : Nat) (vs : List Value) (h : st.Onward t st1) :
    Settles (repeatUpTo p n vs st1) (fun r => st.Onward t r.2) halt :=
  repeatUpTo_settles (fun _ _ st1 => st.Onward t st1) (fun _ _ h1 => h1)
    (fun _ _ st1 h1 => meets_onward h1 (hp st1 h1)) n vs st1 h

include hq in
theorem listLoop_onward {n : Nat} (vs : List Value) (h : Looping t st n st1) :
    Settles (listLoop p q n vs st1) (fun r => st.Onward t r.2) halt := by
  refine listLoop_settles (fun k _ st1 => Looping t st k st1)
    (fun _ _ h1 => absurd h1 Looping.not_spent) (fun k vs st1 h1 => ?_) n vs st1 h
  refine (hq st1 h1.onward).mono (fun _ st2 h2 => ?_) (fun _ h2 => h1.onward.trans (.back h2))
    (fun _ hh => hh)
  have h2 : st1.Onward t st2 := h2
  -- a delimiter without an element is given back, to where the round began
  exact (hp st2 (h1.onward.trans h2)).mono (fun _ _ h3 => h1.next (h2.trans h3))
    (fun _ h3 => ⟨h3.1.moveTo h1.onward.1.cursor, h1.onward.2⟩) (fun _ hh => hh)

theorem seekLoop_stays {pending : State → Bool} (hs : st.Sound t) :
    (seekLoop pending p st.cursor st.offset st.cursor.rest st).Meets (Stays t halt st) := by
  refine seekLoop_meets
    (fun offset rest st1 => st1.Sound t ∧ (Cursor.mk offset rest).In t ∧ st.offset ≤ offset)
    (fun offset rest st1 h1 => ?_) _ _ st ⟨hs, hs.cursor, Nat.le_refl _⟩
  obtain ⟨hs1, hin, hle⟩ := h1
  -- the places that are tried are boundaries from the cursor on, and the last miss goes back
  refine (hp _ ⟨hs1.moveTo hin, hle⟩).mono (fun _ st2 h2 => ⟨h2.1, Nat.le_trans hle h2.2⟩)
    (fun st2 h2 => ⟨fun _ => ⟨h2.1.moveTo hs.cursor, rfl⟩, fun c r _ hr => ?_⟩) (fun _ h2 => h2)
  subst hr
  exact ⟨h2.1, hin.next, Nat.le_trans hle (Nat.le_add_right _ _)⟩

end Loops

/-- A repetition ends onward, or back where it began. -/
theorem endRepeat_stays {ty : Ty} {min : Nat} {o : Except Halt (List Value × State)}
    (hs : st.Sound t) (ho : Settles o (fun r => st.Onward t r.2) halt) :
    (endRepeat ctx ty min st.cursor o).Meets (Stays t halt st) := by
  rw [meets_endRepeat]
  refine ho.mono (fun r hr => ?_) (fun _ hh => hh)
  split
  · exact ⟨hr.1.moveTo hs.cursor, rfl⟩
  · exact hr

theorem times_stays (hs : st.Sound env.source)
    (hp : ∀ st1, st.Onward env.source st1 → (p st1).Meets (Stays env.source halt st1)) (ty : Ty)
    (min : Nat) (max : Option Nat) :
    (times env ctx ty min max p st).Meets (Stays env.source halt st) := by
  cases max with
  | none => exact endRepeat_stays hs (repeatLoop_onward hp [] (.start (.refl hs)))
  | some n => exact endRepeat_stays hs (repeatUpTo_onward hp n [] (.refl hs))

/-! ## Hooks -/

theorem perform_sound {f : Action} {span : Span} {varTy : Option Ty} {v : Value}
    (hs : st.Sound t) : (perform env ctx f span varTy v st).2.Sound t :=
  hs.congr (perform_cursor ..) (perform_journal ..) (perform_failure ..)

theorem succeed_sound (env : Env) (ctx : Ctx) (r : Rule) {span : Span} (v : Value) (hs : st.Sound t)
    (hspan : span.Inside t) : (succeed env ctx r span v st).2.Sound t := by
  refine ⟨?_, ?_, ?_⟩
  · rw [succeed_cursor]
    exact hs.cursor
  · rw [succeed_journal]
    split
    · exact List.forall_mem_cons.mpr ⟨hspan, hs.journal⟩
    · exact hs.journal
  · rw [succeed_failure]
    exact hs.failure

/-- The hook for failures sees a span up to the failure on record. -/
theorem missRule_sound (env : Env) (ctx : Ctx) (r : Rule) {start : Nat} (hs : st.Sound t)
    (hb : t.IsBoundary start) :
    (missRule env ctx r start st).Sound t := by
  refine ⟨?_, ?_, ?_⟩
  · rw [missRule_cursor]
    exact hs.cursor
  · rw [missRule_journal]
    split
    · rename_i f _ hf
      -- the end of the span is one of two boundaries
      have hmax : t.IsBoundary (max f.position start) := by
        rcases Nat.le_total f.position start with hle | hle
        · rwa [Nat.max_eq_right hle]
        · rw [Nat.max_eq_left hle]
          exact hs.failure f hf
      exact List.forall_mem_cons.mpr ⟨⟨Nat.le_max_right .., hmax.le, hb, hmax⟩, hs.journal⟩
    · exact hs.journal
  · rw [missRule_failure]
    exact hs.failure

/-! ## Nodes -/

/-- A terminal takes whole characters of what is left, and at least one if it is a character. -/
theorem takeTerminal_leads {term : Terminal} {noCase : Bool} (hs : st.Sound t)
    (h : st.Onward t st1) :
    (takeTerminal term noCase st.cursor st1).Meets (Leads t halt (.terminal term) st) := by
  refine takeTerminal_meets ⟨h.1.moveTo hs.cursor, rfl⟩ (fun n v c hscan hc => ?_)
    (fun n v hscan hnone => ?_)
  · obtain ⟨c', hc', hin, ho⟩ := h.1.cursor.advance? (Terminal.scan_isBoundary hscan)
    obtain rfl : c = c' := Option.some.inj (hc.symm.trans hc')
    have ho : (st1.moveTo c).offset = st1.offset + n := ho
    refine ⟨⟨h.1.moveTo hin, ?_⟩, fun hcharacter => ?_⟩
    · rw [ho]
      exact Nat.le_trans h.2 (Nat.le_add_right _ _)
    · have hn := Terminal.scan_pos (Grammar.isCharacter_terminal hcharacter) hscan
      have hle := h.2
      omega
  · -- what a terminal takes can always be taken
    obtain ⟨c', hc', -⟩ := h.1.cursor.advance? (Terminal.scan_isBoundary hscan)
    rw [hnone] at hc'
    cases hc'

/-- The parsers that a node runs lead on from where they begin, if that is onward, and behind `st`
    after a character. -/
def PartsLead (env : Env) (halt : Halt → Prop) (rec : Grammar → Ctx → Step) (g : Grammar)
    (ctx : Ctx) (st : State) : Prop :=
  ∀ {moved : Bool} {q : Grammar} {ctx' : Ctx}, Runs env g ctx moved q ctx' →
    ∀ st1, st.Onward env.source st1 → (moved = true → st.offset < st1.offset) →
      (rec q ctx' st1).Meets (Leads env.source halt q st1)

section Step

variable {g : Grammar} (h : PartsLead env halt rec g ctx st)

include h

/-- What a node runs may begin anywhere onward, unless it stands behind a character. -/
theorem PartsLead.onward {q : Grammar} {ctx' : Ctx} (hq : Runs env g ctx false q ctx')
    (h1 : st.Onward env.source st1) : (rec q ctx' st1).Meets (Leads env.source halt q st1) :=
  h hq st1 h1 nofun

theorem skipOver_onward (h1 : st.Onward env.source st1) {ctx' : Ctx}
    (hctx : ctx'.skipper = ctx.skipper) :
    Settles (skipOver env rec ctx' st1) (st1.Onward env.source) halt := by
  refine skipOver_settles (.refl h1.1) fun s _ hs => ?_
  refine skipLoop_onward (fun st2 h2 => ?_) (.start (.refl h1.1))
  exact (h.onward (.skipper (hctx ▸ hs)) (h1.trans h2)).stays

theorem call_stays (hs : st.Sound env.source) {r : Rule} {d : Definition} {ctx' : Ctx}
    (hctx : ctx'.skipper = ctx.skipper)
    (hbody : Runs env g ctx false d.body { ctx' with varTy := some r.ty }) :
    (call env rec r d ctx' st).Meets (Stays env.source halt st) := by
  rw [meets_call]
  refine (skipOver_onward h (.refl hs) hctx).mono (fun st1 h1 => ?_) (fun _ hh => hh)
  -- the body begins where the skipper stopped, with the call in the journal
  have hstart : st.Onward env.source
      { st1.mark (.entered r.name) with ruleVar := Value.default r.ty } :=
    ⟨(h1.1.mark (i := .entered r.name) trivial).congr rfl rfl rfl, h1.2⟩
  refine (h.onward hbody hstart).stays.mono (fun v st2 h2 => ?_) (fun st2 h2 => ?_)
    (fun _ hh => hh)
  · -- the hook for matches sees what the body took, and its veto goes back to before the skipping
    have h2 : st1.Onward env.source st2 := h2
    have hs2 : State.Sound env.source { st2 with ruleVar := st.ruleVar } :=
      h2.1.congr rfl rfl rfl
    have hs3 := (succeed_sound env ctx' r (fillRule r d st2.ruleVar v) hs2
      (h2.inside h1.1)).mark (i := .left r.name) trivial
    refine matchRule_meets rfl (fun _ => ⟨hs3, ?_⟩) ⟨hs3.moveTo hs.cursor, rfl⟩
    rw [State.mark_offset, succeed_offset]
    exact (h1.trans h2).2
  · have hs3 := (missRule_sound env ctx' r h2.1 h1.1.cursor.isBoundary).mark (i := .left r.name)
      trivial
    exact ⟨(hs3.moveTo hs.cursor).congr rfl rfl rfl, rfl⟩

/-- A part of the node, from any state onward. -/
theorem part_stays {q : Grammar} {ctx' : Ctx} (hq : q ∈ g.parts) (hctx : ctx'.Like ctx)
    (st1 : State) (h1 : st.Onward env.source st1) :
    (rec q ctx' st1).Meets (Stays env.source halt st1) :=
  (h.onward (.part hq hctx) h1).stays

end Step

/-- One node stays in the text if the parsers that it runs do. -/
theorem step_stays (g : Grammar) (ctx : Ctx) (st : State) (hs : st.Sound env.source)
    (h : PartsLead env halt rec g ctx st)
    (hundefined : ∀ r, g = .rule r →
      (ctx.chain.injected? r.name).or (env.rules r.name) = none →
        halt ⟨.undefinedRule r.name, st⟩) :
    (step env rec g ctx st).Meets (Stays env.source halt st) := by
  have here : st.Onward env.source st := .refl hs
  have hskip := skipOver_onward h here rfl
  cases g with
  | terminal t =>
    rw [step, meets_afterSkip]
    exact hskip.mono (fun st1 h1 => (takeTerminal_leads hs h1).stays) (fun _ hh => hh)
  | eps c =>
    have hc : st.Onward env.source (condition c st).2 := by
      rw [condition_eq]
      exact ⟨hs.congr rfl rfl rfl, Nat.le_refl _⟩
    rw [meets_eps]
    split
    · exact (skipOver_onward h hc rfl).mono (fun st1 h1 => hc.trans h1) (fun _ hh => hh)
    · exact ⟨hc.1, by rw [condition_eq]⟩
  | attr ty v => exact here
  | seq ps =>
    -- what is behind the parts that were run is past `st` if one of them is a character
    refine seqLoop_meets
      (fun qs _ st1 => ∃ before, ps = before ++ qs ∧ st.Onward env.source st1 ∧
        (before.any (·.isCharacter) = true → st.offset < st1.offset))
      (fun _ st1 h1 => ?_) (fun p qs slots st1 h1 => ?_) ps [] st
      ⟨[], rfl, here, fun hany => absurd hany Bool.false_ne_true⟩
    · obtain ⟨before, -, h1, -⟩ := h1
      exact h1
    · obtain ⟨before, rfl, h1, hmoved⟩ := h1
      refine (h (.seq before p qs ctx) st1 h1 hmoved).mono (fun v st2 h2 => ?_)
        (fun st2 h2 => ⟨h2.1.moveTo hs.cursor, rfl⟩) (fun _ hh => hh)
      refine ⟨before ++ [p], by simp, h1.trans h2.1, fun hany => ?_⟩
      rw [List.any_append, Bool.or_eq_true] at hany
      have hle := h2.1.2
      obtain hb | hp := hany
      · exact Nat.lt_of_lt_of_le (hmoved hb) hle
      · exact Nat.lt_of_le_of_lt h1.2 (h2.2 (by simpa using hp))
  | alt p q =>
    rw [step, meets_alt]
    refine (part_stays h (by simp [Grammar.parts]) (.refl ctx) st here).mono (fun _ _ h1 => h1)
      (fun st1 h1 => ?_) (fun _ hh => hh)
    dsimp only
    split
    · exact h1
    · exact (part_stays h (by simp [Grammar.parts]) (.refl ctx) st1 (.back h1)).after h1.2
  | diff p q =>
    rw [step, meets_diff]
    refine (part_stays h (by simp [Grammar.parts]) (.refl ctx) st here).mono
      (fun _ st1 h1 => ⟨h1.1.moveTo hs.cursor, rfl⟩) (fun st1 h1 => ?_) (fun _ hh => hh)
    exact (part_stays h (by simp [Grammar.parts]) (.refl ctx) st1 (.back h1)).after h1.2
  | list p d =>
    have hp := part_stays (q := p) h (by simp [Grammar.parts]) (.refl ctx)
    have hd := part_stays (q := d) h (by simp [Grammar.parts]) (.refl ctx)
    rw [step, list, Outcome.meets_cases]
    refine (hp st here).mono (fun v st1 h1 => ?_) (fun _ h1 => h1) (fun _ hh => hh)
    exact endRepeat_stays hs (listLoop_onward hp hd [v] (.start h1))
  | opt p =>
    rw [step, meets_opt]
    refine (part_stays h List.mem_cons_self (.refl ctx) st here).mono (fun _ _ h1 => h1)
      (fun st1 h1 => ?_) (fun _ hh => hh)
    dsimp only
    split
    · exact h1
    · exact .back h1
  | ahead p =>
    rw [step, meets_ahead]
    exact (part_stays h List.mem_cons_self (.refl ctx) st here).mono
      (fun _ _ h1 => ⟨h1.1.moveTo hs.cursor, Nat.le_refl _⟩)
      (fun _ h1 => ⟨h1.1.moveTo hs.cursor, rfl⟩) (fun _ hh => hh)
  | notAhead p =>
    rw [step, meets_notAhead]
    exact (part_stays h List.mem_cons_self (.refl ctx) st here).mono
      (fun _ _ h1 => ⟨h1.1.moveTo hs.cursor, rfl⟩)
      (fun _ h1 => ⟨h1.1.moveTo hs.cursor, Nat.le_refl _⟩) (fun _ hh => hh)
  | kleene p => exact times_stays hs (part_stays h List.mem_cons_self (.refl ctx)) p.ty 0 none
  | plus p => exact times_stays hs (part_stays h List.mem_cons_self (.refl ctx)) p.ty 1 none
  | times min max p =>
    exact times_stays hs (part_stays h List.mem_cons_self (.refl ctx)) p.ty min max
  | seek p => exact seekLoop_stays (part_stays h List.mem_cons_self (.refl ctx)) hs
  | expect p =>
    -- the miss is on record at the place that the skipper reaches, and the cursor is not
    rw [step, meets_expect]
    refine (part_stays h List.mem_cons_self (.refl ctx) st here).mono (fun _ _ h1 => h1)
      (fun st1 h1 => ?_) (fun _ hh => hh)
    dsimp only
    split
    · refine (skipOver_onward h (.back h1) rfl).mono (fun st2 h2 => ?_) (fun _ hh => hh)
      exact ⟨(h2.1.record _).moveTo h1.1.cursor, h1.2⟩
    · exact h1
  | action p f =>
    rw [step, meets_action]
    refine hskip.mono (fun st1 h1 => ?_) (fun _ hh => hh)
    refine (part_stays h List.mem_cons_self (.refl ctx) st1 h1).mono (fun v st2 h2 => ?_)
      (fun st2 h2 => ⟨h2.1.moveTo hs.cursor, rfl⟩) (fun _ hh => hh)
    have h2 : st1.Onward env.source st2 := h2
    -- the hook sees what was taken after the skipping
    have hs3 : (perform env ctx f ⟨st1.offset, st2.offset⟩ ctx.varTy v
        (st2.mark (.acted ⟨st1.offset, st2.offset⟩))).2.Sound env.source :=
      perform_sound (h2.1.mark (h2.inside h1.1))
    dsimp only
    split
    · refine ⟨hs3, ?_⟩
      rw [perform_offset, State.mark_offset]
      exact (h1.trans h2).2
    · exact ⟨hs3.moveTo hs.cursor, rfl⟩
  | raw p =>
    rw [step, meets_raw]
    refine hskip.mono (fun st1 h1 => ?_) (fun _ hh => hh)
    exact meets_restored hs h1 (part_stays h List.mem_cons_self (.refl ctx) st1 h1)
  | discard p =>
    rw [step, meets_mapValue]
    exact part_stays h List.mem_cons_self (.refl ctx) st here
  | flag p =>
    rw [step, meets_flag]
    exact (part_stays h List.mem_cons_self (.refl ctx) st here).mono (fun _ _ h1 => h1)
      (fun _ h1 => .back h1) (fun _ hh => hh)
  | into ty p =>
    rw [step, meets_mapValue]
    exact part_stays h List.mem_cons_self (.refl ctx) st here
  | narrow ty f p =>
    rw [step, meets_narrow]
    exact (part_stays h List.mem_cons_self (.refl ctx) st here).mono
      (fun _ _ h1 => ⟨fun _ _ => h1, fun _ => ⟨h1.1.moveTo hs.cursor, rfl⟩⟩) (fun _ h1 => h1)
      (fun _ hh => hh)
  | lexeme p =>
    -- inside, skipping is off, but the skipper stays in force for what turns it on again
    rw [step, meets_lexeme]
    refine hskip.mono (fun st1 h1 => ?_) (fun _ hh => hh)
    exact meets_restored hs h1 (part_stays h List.mem_cons_self (.skipping ctx false) st1 h1)
  | noSkip p => exact part_stays h List.mem_cons_self (.skipping ctx false) st here
  | skip p => exact part_stays h List.mem_cons_self (.skipping ctx true) st here
  | skipWith s p => exact (h.onward (.skipWith s p ctx) here).stays
  | noCase p => exact part_stays h List.mem_cons_self (.noCase ctx true) st here
  | bind key b p =>
    have hp (bound : Bound) := part_stays (q := p) h List.mem_cons_self (.bind ctx key bound)
    -- opening a cell touches neither the cursor nor the journal
    cases b with
    | own v => exact hp _ st here
    | annotations => exact hp _ st here
    | shared id initial =>
      have hopen : (st.openCell id initial).Sound env.source := by
        rw [State.openCell_eq]
        exact hs.congr rfl rfl rfl
      have hc : (st.openCell id initial).cursor = st.cursor := by rw [State.openCell_eq]
      exact (hp _ _ (.back ⟨hopen, hc⟩)).after hc
    | fresh initial =>
      rw [step, bind, meets_mapState]
      have hpush : State.Sound env.source { st with locals := initial :: st.locals } :=
        hs.congr rfl rfl rfl
      exact (hp _ _ ⟨hpush, Nat.le_refl _⟩).mono (fun _ _ h1 => ⟨h1.1.congr rfl rfl rfl, h1.2⟩)
        (fun _ h1 => ⟨h1.1.congr rfl rfl rfl, h1.2⟩) (fun _ hh => hh)
  | hide key p => exact part_stays h List.mem_cons_self (.hide ctx key) st here
  | rule r =>
    -- the body may be any that the name stands for
    refine rule_meets (fun d hd => ?_) (hundefined r rfl)
    exact call_stays h hs rfl (.rule hd (.varTy ctx _))
  | define r force body =>
    exact call_stays (d := ⟨body, force⟩) h hs rfl (.define (.varTy (ctx.inject _ _) _))
  | group p => exact part_stays h List.mem_cons_self (.refl ctx) st here
  | «sealed» hasAction p => exact part_stays h List.mem_cons_self (.refl ctx) st here

/-- One node leads on if the parsers that it runs do. -/
theorem step_leads (g : Grammar) (ctx : Ctx) (st : State) (hs : st.Sound env.source)
    (h : PartsLead env halt rec g ctx st)
    (hundefined : ∀ r, g = .rule r →
      (ctx.chain.injected? r.name).or (env.rules r.name) = none →
        halt ⟨.undefinedRule r.name, st⟩) :
    (step env rec g ctx st).Meets (Leads env.source halt g st) := by
  have here : st.Onward env.source st := .refl hs
  -- a character is a terminal, perhaps inside of groups; of other nodes nothing more is asked
  cases g with
  | terminal t =>
    rw [step, meets_afterSkip]
    exact (skipOver_onward h here rfl).mono (fun st1 h1 => takeTerminal_leads hs h1)
      (fun _ hh => hh)
  | group p => exact h.onward (.part List.mem_cons_self (.refl ctx)) here
  | «sealed» hasAction p => exact h.onward (.part List.mem_cons_self (.refl ctx)) here
  | _ => exact (step_stays _ ctx st hs h hundefined).leads rfl

end Node

/-! ## Runs -/

/-- A run ends in a state of the text if its parsers lead on from where they begin. -/
theorem runWithin_onward {p : Program} {n : Nat} {options : ParseOptions} {target : Ty}
    {slot : Value} {source : Text}
    (h : (parse (p.env source) n p.grammar (p.context options) { cursor := .start source }).Meets
      (Leads source halt p.grammar { cursor := .start source }))
    (hparts : ∀ st, st.Sound source → Node.PartsLead (p.env source) halt (parse (p.env source) n)
      p.grammar (p.context options) st) :
    Settles (p.runWithin n options target slot source)
      (fun r => ∃ matched slot' st, r = Program.report source matched slot' st ∧ st.Sound source)
      halt := by
  refine runWithin_settles (h.mono (fun v st h1 => ?_) (fun st h1 => ⟨_, _, st, rfl, h1.1⟩)
    (fun _ hh => hh))
  simp only [Program.afterMatch]
  split
  · exact (Node.skipOver_onward (hparts st h1.1.1) (.refl h1.1.1) rfl).mono
      (fun st' h2 => ⟨_, _, st', rfl, h2.1⟩) (fun _ hh => hh)
  · exact ⟨_, _, st, rfl, h1.1.1⟩

end Peg
