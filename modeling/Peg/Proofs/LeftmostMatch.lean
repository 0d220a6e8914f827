/-
  Peg.Proofs.LeftmostMatch

  Where a parser that seeks finds its subject. It tries the subject at one place after
  the other, each time in the state that the attempts before have left (`Tried`); from
  each of these states on the loop goes on as it does from the first one, so that what
  it comes to is what the last attempt came to. A subject that remembers nothing does in
  such a state what it would have done at that place at once: then the match is that of
  the leftmost place where the subject matches.
-/
import Mathlib.Data.List.Induction
import Peg.Grammar.Command
import Peg.Grammar.Notation
import Peg.Proofs.FurthestFailure
import Peg.Proofs.LineSplit
import Peg.Proofs.Memoryless

namespace Peg

open Text

/-! ## Places -/

namespace Cursor

variable {t : Text} {q r : Cursor}

/-- What is left at a place further on is behind what was stepped over. -/
theorem In.stepped (hq : q.In t) (hr : r.In t) (h : q.offset ≤ r.offset) :
    ∃ taken, q.rest = taken ++ r.rest ∧ r.offset = q.offset + byteLength taken := by
  obtain ⟨before, ht, hq⟩ := hq
  obtain ⟨before', ht', hr⟩ := hr
  obtain ⟨taken, hb, hrest⟩ := append_of_byteLength_le (ht.symm.trans ht') (by omega)
  refine ⟨taken, hrest, ?_⟩
  rw [hr, hb, byteLength_append, hq]

/-- There is no place inside of a character. -/
theorem In.eq_of_lt {offset : Nat} {c : Char} {rest : Text}
    (hq : (Cursor.mk offset (c :: rest)).In t) (hr : r.In t) (h : offset ≤ r.offset)
    (hlt : r.offset < offset + c.utf8Size) : r = ⟨offset, c :: rest⟩ := by
  apply In.eq_of_offset hq hr
  obtain ⟨taken, hrest, hoffset⟩ := hq.stepped hr h
  cases taken with
  | nil => exact hoffset
  | cons d taken =>
    obtain ⟨rfl, -⟩ : c = d ∧ rest = taken ++ r.rest := by simpa using hrest
    rw [byteLength_cons] at hoffset
    dsimp only at hoffset
    omega

/-- The end is the last place. -/
theorem In.eq_end (hq : q.In t) (hend : q.rest = []) (hr : r.In t) (h : q.offset ≤ r.offset) :
    r = q := by
  apply In.eq_of_offset hq hr
  obtain ⟨taken, hrest, hoffset⟩ := hq.stepped hr h
  obtain ⟨rfl, -⟩ : taken = [] ∧ r.rest = [] := by
    rw [hend] at hrest
    exact List.append_eq_nil_iff.mp hrest.symm
  exact hoffset

end Cursor

/-! ## Attempts -/

/-- The states in which a parser is tried, one after the other: each time that it fails, one
    character further on, in the state that it left. -/
inductive Tried (env : Env) (p : Grammar) (ctx : Ctx) (st : State) : State → Prop where
  | here : Tried env p ctx st st
  | next {st1 st2 : State} {offset : Nat} {c : Char} {r : Text} (h : Tried env p ctx st st1)
      (hmiss : Answers env p ctx st1 (.failed st2)) (hplace : st1.cursor = ⟨offset, c :: r⟩) :
      Tried env p ctx st (st2.moveTo ⟨offset + c.utf8Size, r⟩)

section Loop

variable {env : Env} {p : Grammar} {ctx : Ctx} {st st1 st2 : State} {start : Cursor} {v : Value}

/-- The loop of a parser that seeks, from the cursor of a state. -/
noncomputable def seekFrom (env : Env) (p : Grammar) (ctx : Ctx) (start : Cursor) (st : State) :
    Outcome :=
  Node.seekLoop (·.pending ctx) (answer env p ctx) start st.offset st.cursor.rest st

theorem answers_seek {o : Outcome} :
    Answers env (.seek p) ctx st o ↔ ¬ o.Spent ∧ seekFrom env p ctx st.cursor st = o :=
  answers_iff_step

/-- The loop puts the cursor where it tries the subject itself. -/
theorem seekLoop_moveTo {pending : State → Bool} {q : Step} (offset : Nat) (rest : Text)
    (c : Cursor) :
    Node.seekLoop pending q start offset rest (st.moveTo c) =
      Node.seekLoop pending q start offset rest st := by
  have hback : (st.moveTo c).moveTo ⟨offset, rest⟩ = st.moveTo ⟨offset, rest⟩ := rfl
  cases rest <;> rw [Node.seekLoop, Node.seekLoop, hback]

section Cases

variable (start : Cursor)

/-- Where no other place is left to try after a failure, the loop comes to what the subject comes
    to. -/
theorem seekFrom_last (hlast : ∀ st', answer env p ctx st = .failed st' → st.cursor.rest = []) :
    seekFrom env p ctx start st =
      (answer env p ctx st).cases .matched fun st' => .failed (st'.moveTo start) := by
  have hself : st.moveTo ⟨st.offset, st.cursor.rest⟩ = st := rfl
  rw [seekFrom, Node.seekLoop.eq_def]
  simp only [hself]
  cases hanswer : answer env p ctx st with
  | matched v st' => rfl
  | stopped hlt => rfl
  | failed st' => simp only [hlast st' hanswer, ite_self, Outcome.cases_failed]

/-- After a failure the loop goes on one character further on. -/
theorem seekFrom_next (h : answer env p ctx st = .failed st1) (hpending : st1.pending ctx = false)
    {offset : Nat} {c : Char} {r : Text} (hplace : st.cursor = ⟨offset, c :: r⟩) :
    seekFrom env p ctx start (st1.moveTo ⟨offset + c.utf8Size, r⟩) =
      seekFrom env p ctx start st := by
  have hself : st.moveTo ⟨offset, c :: r⟩ = st := by
    rw [← hplace]
    rfl
  have hoffset : st.offset = offset := congrArg Cursor.offset hplace
  have hrest : st.cursor.rest = c :: r := congrArg Cursor.rest hplace
  have hnext : seekFrom env p ctx start (st1.moveTo ⟨offset + c.utf8Size, r⟩) =
      Node.seekLoop (·.pending ctx) (answer env p ctx) start (offset + c.utf8Size) r st1 :=
    seekLoop_moveTo (offset + c.utf8Size) r _
  symm
  rw [hnext, seekFrom, hoffset, hrest, Node.seekLoop]
  simp only [hself, h, hpending, Bool.false_eq_true, if_false]

end Cases

/-- Failures of the subject leave none pending. -/
def Unpending (env : Env) (p : Grammar) (ctx : Ctx) : Prop :=
  ∀ st st', Answers env p ctx st (.failed st') → st.pending ctx = false → st'.pending ctx = false

theorem NeverRecords.unpending (h : NeverRecords env p ctx) : Unpending env p ctx := by
  rintro st st' ⟨-, n, hn⟩ hpending
  have hfailure := h.failure_eq n st
  rw [hn] at hfailure
  rw [State.pending, show st'.failure = st.failure from hfailure]
  exact hpending

/-- From every state in which the subject is tried, the loop comes to the same. -/
theorem Tried.seekFrom_eq (hquiet : Unpending env p ctx) (h : Tried env p ctx st st1)
    (hpending : st.pending ctx = false) (start : Cursor) :
    st1.pending ctx = false ∧ seekFrom env p ctx start st1 = seekFrom env p ctx start st := by
  induction h with
  | here => exact ⟨hpending, rfl⟩
  | next _ hmiss hplace ih =>
    have hleft := hquiet _ _ hmiss ih.1
    refine ⟨hleft, ?_⟩
    rw [seekFrom_next start (answers_failed_iff.mp hmiss) hleft hplace, ih.2]

/-- There is a last attempt: it does not fail, or it fails at the end of the text. -/
theorem exists_last (h : Tried env p ctx st st1) : ∃ st2, Tried env p ctx st st2 ∧
    ∀ st3, answer env p ctx st2 = .failed st3 → st2.cursor.rest = [] := by
  -- on the text that is left to try
  generalize hrest : st1.cursor.rest = rest
  induction rest generalizing st1 with
  | nil => exact ⟨st1, h, fun _ _ => hrest⟩
  | cons c r ih =>
    cases hanswer : answer env p ctx st1 with
    | matched v st3 =>
      refine ⟨st1, h, fun st4 hmiss => ?_⟩
      cases hanswer.symm.trans hmiss
    | stopped hlt =>
      refine ⟨st1, h, fun st4 hmiss => ?_⟩
      cases hanswer.symm.trans hmiss
    | failed st3 =>
      have hmiss := answers_failed_iff.mpr hanswer
      have hplace : st1.cursor = ⟨st1.offset, c :: r⟩ := by
        rw [← hrest]
        rfl
      exact ih (.next h hmiss hplace) rfl

theorem Outcome.cases_eq_matched {o : Outcome} {back : State → State} {st' : State} :
    (o.cases .matched fun st1 => .failed (back st1)) = .matched v st' ↔ o = .matched v st' := by
  cases o <;> simp

theorem Outcome.cases_eq_failed {o : Outcome} {back : State → State} {st' : State} :
    (o.cases .matched fun st1 => .failed (back st1)) = .failed st' ↔
      ∃ st1, o = .failed st1 ∧ st' = back st1 := by
  cases o <;> simp [eq_comm]

/-- The loop comes to what the last attempt came to. -/
theorem answers_seek_iff (hquiet : Unpending env p ctx) (hpending : st.pending ctx = false) :
    (∀ v st', Answers env (.seek p) ctx st (.matched v st') ↔
      ∃ st1, Tried env p ctx st st1 ∧ Answers env p ctx st1 (.matched v st')) ∧
    ∀ st', Answers env (.seek p) ctx st (.failed st') ↔
      ∃ st1 st2, Tried env p ctx st st1 ∧ st1.cursor.rest = [] ∧
        Answers env p ctx st1 (.failed st2) ∧ st' = st2.moveTo st.cursor := by
  obtain ⟨last, htried, hlast⟩ := exists_last (.here : Tried env p ctx st st)
  have hfrom {st1 : State} (h1 : Tried env p ctx st st1)
      (hend : ∀ st2, answer env p ctx st1 = .failed st2 → st1.cursor.rest = []) :
      seekFrom env p ctx st.cursor st =
        (answer env p ctx st1).cases .matched fun st2 => .failed (st2.moveTo st.cursor) :=
    (h1.seekFrom_eq hquiet hpending st.cursor).2.symm.trans (seekFrom_last st.cursor hend)
  constructor
  · intro v st'
    rw [answers_seek, and_iff_right (Outcome.not_spent_matched v st')]
    constructor
    · intro hhit
      rw [hfrom htried hlast, Outcome.cases_eq_matched] at hhit
      exact ⟨last, htried, answers_matched_iff.mpr hhit⟩
    · rintro ⟨st1, h1, hhit⟩
      have hanswer := answers_matched_iff.mp hhit
      rw [hfrom h1, Outcome.cases_eq_matched]
      · exact hanswer
      · intro st2 hmiss
        cases hanswer.symm.trans hmiss
  · intro st'
    rw [answers_seek, and_iff_right (Outcome.not_spent_failed st')]
    constructor
    · intro hmiss
      rw [hfrom htried hlast, Outcome.cases_eq_failed] at hmiss
      obtain ⟨st2, hanswer, rfl⟩ := hmiss
      exact ⟨last, st2, htried, hlast st2 hanswer, answers_failed_iff.mpr hanswer, rfl⟩
    · rintro ⟨st1, st2, h1, hrest, hmiss, rfl⟩
      rw [hfrom h1 fun _ _ => hrest, Outcome.cases_eq_failed]
      exact ⟨st2, answers_failed_iff.mp hmiss, rfl⟩

end Loop

/-! ## Places where the subject matches -/

/-- The place is in the text, and not before the cursor. -/
def State.Onwards (env : Env) (st : State) (r : Cursor) : Prop :=
  r.In env.source ∧ st.offset ≤ r.offset

/-- From the state, but at this place, the parser matches with this value and comes to this end. -/
def MatchesAt (env : Env) (p : Grammar) (ctx : Ctx) (st : State) (r : Cursor) (v : Value)
    (stop : Cursor) : Prop :=
  ∃ st', Answers env p ctx (st.moveTo r) (.matched v st') ∧ st'.cursor = stop

/-- From the state, but at this place, the parser fails. -/
def FailsAt (env : Env) (p : Grammar) (ctx : Ctx) (st : State) (r : Cursor) : Prop :=
  ∃ st', Answers env p ctx (st.moveTo r) (.failed st')

/-- Where a match ends. -/
def Outcome.stop? : Outcome → Option Cursor
  | .matched _ st => some st.cursor
  | _ => none

/-- A match can be seen with some fuel. -/
theorem matchesAt_of_stop {env : Env} {n : Nat} {p : Grammar} {ctx : Ctx} {st : State}
    {r stop : Cursor} (h : (parse env n p ctx (st.moveTo r)).stop? = some stop) :
    ∃ v, MatchesAt env p ctx st r v stop := by
  cases hp : parse env n p ctx (st.moveTo r) with
  | matched v st' =>
    rw [hp] at h
    exact ⟨v, st', ⟨Outcome.not_spent_matched v st', n, hp⟩, Option.some.inj h⟩
  | failed st' =>
    rw [hp] at h
    cases h
  | stopped hlt =>
    rw [hp] at h
    cases h

/-- The parser failed. -/
def Outcome.isFailed : Outcome → Bool
  | .failed _ => true
  | _ => false

/-- So can a failure. -/
theorem failsAt_of_isFailed {env : Env} {n : Nat} {p : Grammar} {ctx : Ctx} {st : State}
    {r : Cursor} (h : (parse env n p ctx (st.moveTo r)).isFailed = true) :
    FailsAt env p ctx st r := by
  cases hp : parse env n p ctx (st.moveTo r) with
  | failed st' => exact ⟨st', Outcome.not_spent_failed st', n, hp⟩
  | matched v st' =>
    rw [hp] at h
    cases h
  | stopped hlt =>
    rw [hp] at h
    cases h

section Places

variable {env : Env} {p : Grammar} {ctx : Ctx} {st st1 u : State} {r : Cursor}

theorem Ledger.level_of_not_pending {c : Ctx} (h : st.pending c = false)
    (h' : u.pending c = false) : (Ledger.of st u).Level c := by
  intro ht
  rw [State.pending, ht, Bool.true_and] at h h'
  exact h'.trans h.symm

theorem Tried.onwards (hin : st.cursor.In env.source) (h : Tried env p ctx st st1) :
    st.Onwards env st1.cursor := by
  induction h with
  | here => exact ⟨hin, Nat.le_refl _⟩
  | @next st1 st2 offset c r _ _ hplace ih =>
    obtain ⟨hin1, hle⟩ := ih
    rw [hplace] at hin1 hle
    exact ⟨hin1.next, Nat.le_trans hle (Nat.le_add_right _ _)⟩

variable (hp : Forgets env p ctx) (hquiet : Unpending env p ctx) (hpending : st.pending ctx = false)

include hp hquiet hpending

/-- In the states in which it is tried, the subject matches as it would have done at once. -/
theorem Tried.matches_iff (h : Tried env p ctx st st1) {v : Value} {stop : Cursor} :
    MatchesAt env p ctx st st1.cursor v stop ↔
      ∃ st', Answers env p ctx st1 (.matched v st') ∧ st'.cursor = stop := by
  have hpending1 := (h.seekFrom_eq hquiet hpending st.cursor).1
  have hpending' : (st.moveTo st1.cursor).pending ctx = false := hpending
  constructor
  · rintro ⟨st', hhit, rfl⟩
    exact hhit.matched_there hp (.refl ctx) rfl (Ledger.level_of_not_pending hpending' hpending1)
  · rintro ⟨st', hhit, rfl⟩
    exact hhit.matched_there hp (.refl ctx) rfl (Ledger.level_of_not_pending hpending1 hpending')

/-- And it fails as it would have done at once. -/
theorem Tried.fails_iff (h : Tried env p ctx st st1) :
    FailsAt env p ctx st st1.cursor ↔ ∃ st', Answers env p ctx st1 (.failed st') := by
  have hpending1 := (h.seekFrom_eq hquiet hpending st.cursor).1
  have hpending' : (st.moveTo st1.cursor).pending ctx = false := hpending
  constructor
  · rintro ⟨st', hmiss⟩
    exact hmiss.failed_there hp (.refl ctx) rfl (Ledger.level_of_not_pending hpending' hpending1)
  · rintro ⟨st', hmiss⟩
    exact hmiss.failed_there hp (.refl ctx) rfl (Ledger.level_of_not_pending hpending1 hpending')

/-- Before an attempt, the subject failed at all earlier places. -/
theorem Tried.failed_before (hin : st.cursor.In env.source) (h : Tried env p ctx st st1)
    (hr : st.Onwards env r) (hlt : r.offset < st1.offset) : FailsAt env p ctx st r := by
  induction h with
  | here =>
    have hle := hr.2
    omega
  | @next st1 st2 offset c rest h hmiss hplace ih =>
    by_cases hearlier : r.offset < st1.offset
    · exact ih hearlier
    · -- between the last attempt and this one there is no other place
      have hoffset : st1.offset = offset := congrArg Cursor.offset hplace
      have hin1 := (h.onwards hin).1
      rw [hplace] at hin1
      have hsame : r = st1.cursor := by
        rw [hplace]
        exact hin1.eq_of_lt hr.1 (by omega) hlt
      rw [hsame]
      exact (h.fails_iff hp hquiet hpending).mpr ⟨st2, hmiss⟩

/-- The subject is tried at a place if it fails at all earlier ones. -/
theorem exists_tried (hin : st.cursor.In env.source) (hr : st.Onwards env r)
    (h : ∀ r', st.Onwards env r' → r'.offset < r.offset → FailsAt env p ctx st r') :
    ∃ st1, Tried env p ctx st st1 ∧ st1.cursor = r := by
  obtain ⟨taken, hrest, hoffset⟩ : ∃ taken, st.cursor.rest = taken ++ r.rest ∧
      r.offset = st.offset + byteLength taken := hin.stepped hr.1 hr.2
  -- on the characters between the cursor and the place, from behind
  induction taken using List.reverseRecOn generalizing r with
  | nil =>
    refine ⟨st, .here, ?_⟩
    exact hr.1.eq_of_offset hin hoffset.symm
  | append_singleton taken c ih =>
    have hsize := c.utf8Size_pos
    rw [byteLength_append, byteLength_cons, byteLength_nil] at hoffset
    let r0 : Cursor := ⟨st.offset + byteLength taken, c :: r.rest⟩
    have hr0 : st.Onwards env r0 := by
      obtain ⟨before, ht, ho⟩ := hin
      refine ⟨⟨before ++ taken, ?_, ?_⟩, Nat.le_add_right _ _⟩
      · rw [ht, hrest, List.append_assoc, List.append_assoc]
        rfl
      · rw [byteLength_append, ← ho]
        rfl
    have hlt0 : r0.offset < r.offset := by
      show st.offset + byteLength taken < r.offset
      omega
    obtain ⟨st1, h1, hcursor⟩ := ih hr0 (fun r' hr' hlt => h r' hr' (by omega))
      (by rw [hrest, List.append_assoc]; rfl) rfl
    -- the last of them is where the subject failed last
    have hfails := h r0 hr0 hlt0
    rw [← hcursor, h1.fails_iff hp hquiet hpending] at hfails
    obtain ⟨st2, hmiss⟩ := hfails
    refine ⟨_, .next h1 hmiss hcursor, ?_⟩
    apply Cursor.In.eq_of_offset hr.1 hr0.1.next
    show st.offset + byteLength taken + c.utf8Size = r.offset
    omega

end Places

/-! ## Leftmost matches -/

section Leftmost

variable {env : Env} {p : Grammar} {ctx : Ctx} {st : State} {v : Value} {stop : Cursor}

theorem matchesAt_seek (hquiet : Unpending env p ctx) (hpending : st.pending ctx = false) :
    MatchesAt env (.seek p) ctx st st.cursor v stop ↔ ∃ st1, Tried env p ctx st st1 ∧
      ∃ st', Answers env p ctx st1 (.matched v st') ∧ st'.cursor = stop := by
  have hseek := (answers_seek_iff hquiet hpending).1 v
  constructor
  · rintro ⟨st', hhit, hstop⟩
    obtain ⟨st1, h1, hhit1⟩ := (hseek st').mp hhit
    exact ⟨st1, h1, st', hhit1, hstop⟩
  · rintro ⟨st1, h1, st', hhit1, hstop⟩
    exact ⟨st', (hseek st').mpr ⟨st1, h1, hhit1⟩, hstop⟩

theorem failsAt_seek (hquiet : Unpending env p ctx) (hpending : st.pending ctx = false) :
    FailsAt env (.seek p) ctx st st.cursor ↔ ∃ st1, Tried env p ctx st st1 ∧
      st1.cursor.rest = [] ∧ ∃ st', Answers env p ctx st1 (.failed st') := by
  have hseek := (answers_seek_iff hquiet hpending).2
  constructor
  · rintro ⟨st', hmiss⟩
    obtain ⟨st1, st2, h1, hrest, hmiss1, -⟩ := (hseek st').mp hmiss
    exact ⟨st1, h1, hrest, st2, hmiss1⟩
  · rintro ⟨st1, h1, hrest, st2, hmiss1⟩
    exact ⟨_, (hseek _).mpr ⟨st1, st2, h1, hrest, hmiss1, rfl⟩⟩

variable (hp : Forgets env p ctx) (hquiet : Unpending env p ctx) (hpending : st.pending ctx = false)
  (hin : st.cursor.In env.source)

include hp hquiet hpending hin

/-- The match is that of the leftmost place where the subject matches. -/
theorem seek_matches_iff : MatchesAt env (.seek p) ctx st st.cursor v stop ↔
    ∃ r, st.Onwards env r ∧ MatchesAt env p ctx st r v stop ∧
      ∀ r', st.Onwards env r' → r'.offset < r.offset → FailsAt env p ctx st r' := by
  rw [matchesAt_seek hquiet hpending]
  constructor
  · rintro ⟨st1, h1, hhit⟩
    refine ⟨st1.cursor, h1.onwards hin, (h1.matches_iff hp hquiet hpending).mpr hhit, ?_⟩
    intro r' hr' hlt
    exact h1.failed_before hp hquiet hpending hin hr' hlt
  · rintro ⟨r, hr, hhit, hearlier⟩
    obtain ⟨st1, h1, rfl⟩ := exists_tried hp hquiet hpending hin hr hearlier
    exact ⟨st1, h1, (h1.matches_iff hp hquiet hpending).mp hhit⟩

/-- There is no match if the subject fails at all places. -/
theorem seek_fails_iff : FailsAt env (.seek p) ctx st st.cursor ↔
    ∀ r, st.Onwards env r → FailsAt env p ctx st r := by
  rw [failsAt_seek hquiet hpending]
  constructor
  · rintro ⟨st1, h1, hrest, hmiss⟩ r hr
    by_cases hlt : r.offset < st1.offset
    · exact h1.failed_before hp hquiet hpending hin hr hlt
    · have hlast := (h1.onwards hin).1.eq_end hrest hr.1 (Nat.le_of_not_lt hlt)
      rw [hlast]
      exact (h1.fails_iff hp hquiet hpending).mpr hmiss
  · intro h
    -- the last place is the end of the text
    let last : Cursor := ⟨byteLength env.source, []⟩
    have hlast : st.Onwards env last :=
      ⟨⟨env.source, (List.append_nil _).symm, rfl⟩, hin.isBoundary.le⟩
    obtain ⟨st1, h1, hcursor⟩ := exists_tried hp hquiet hpending hin hlast fun r' hr' _ => h r' hr'
    refine ⟨st1, h1, congrArg Cursor.rest hcursor, ?_⟩
    rw [← h1.fails_iff hp hquiet hpending, hcursor]
    exact h last hlast

/-- If the subject comes to an answer everywhere, there is a match if there is one anywhere. -/
theorem seek_matches_of_total
    (htotal : ∀ r, st.Onwards env r →
      (∃ v stop, MatchesAt env p ctx st r v stop) ∨ FailsAt env p ctx st r) :
    (∃ v stop, MatchesAt env (.seek p) ctx st st.cursor v stop) ↔
      ∃ r v stop, st.Onwards env r ∧ MatchesAt env p ctx st r v stop := by
  constructor
  · rintro ⟨v, stop, hhit⟩
    obtain ⟨r, hr, hhit, -⟩ := (seek_matches_iff hp hquiet hpending hin).mp hhit
    exact ⟨r, v, stop, hr, hhit⟩
  · rintro ⟨r, v, stop, hr, st', hhit, -⟩
    obtain ⟨last, htried, hlast⟩ := exists_last (.here : Tried env p ctx st st)
    rcases htotal last.cursor (htried.onwards hin) with ⟨w, stop', hthere⟩ | hmiss
    · refine ⟨w, stop', (matchesAt_seek hquiet hpending).mpr ⟨last, htried, ?_⟩⟩
      exact (htried.matches_iff hp hquiet hpending).mp hthere
    · -- a failure of the last attempt would be one at every place
      obtain ⟨st2, hmiss⟩ := (htried.fails_iff hp hquiet hpending).mp hmiss
      have hseek : FailsAt env (.seek p) ctx st st.cursor :=
        (failsAt_seek hquiet hpending).mpr
          ⟨last, htried, hlast st2 (answers_failed_iff.mp hmiss), st2, hmiss⟩
      obtain ⟨st3, hmiss'⟩ := (seek_fails_iff hp hquiet hpending hin).mp hseek r hr
      cases hhit.unique hmiss'

end Leftmost

/-- A parser that seeks, where no failure is pending, for a subject that comes to no commit point
    where failures are tracked: it tries the subject at one place after the other, each time in the
    state that the failures before have left. The match is that of the first attempt that matches,
    and there is none, with the cursor where it was, if all fail up to the one at the end of the
    text. For a subject without actions and scripts in it, in the bodies of its rules and in the
    skippers that it comes to run, and whose hooks, if there are any, decide by the match alone,
    what it does at a place does not hang on the attempts before: the match is that of the leftmost
    place, from the cursor to the end of the text, where the subject matches, with its value and its
    end; the parser fails exactly if the subject fails at all of them; and if the subject comes to
    an answer at each place, there is a match exactly if there is one at any of them. -/
theorem seek_leftmost {env : Env} {p : Grammar} {ctx : Ctx} {st : State}
    (hin : st.cursor.In env.source) (hpending : st.pending ctx = false)
    (hnever : NeverRecords env p ctx) :
    ((∀ v st', Answers env (.seek p) ctx st (.matched v st') ↔
        ∃ st1, Tried env p ctx st st1 ∧ Answers env p ctx st1 (.matched v st')) ∧
      ∀ st', Answers env (.seek p) ctx st (.failed st') ↔
        ∃ st1 st2, Tried env p ctx st st1 ∧ st1.cursor.rest = [] ∧
          Answers env p ctx st1 (.failed st2) ∧ st' = st2.moveTo st.cursor) ∧
    (Forgets env p ctx →
      (∀ v stop, MatchesAt env (.seek p) ctx st st.cursor v stop ↔
        ∃ r, st.Onwards env r ∧ MatchesAt env p ctx st r v stop ∧
          ∀ r', st.Onwards env r' → r'.offset < r.offset → FailsAt env p ctx st r') ∧
      (FailsAt env (.seek p) ctx st st.cursor ↔
        ∀ r, st.Onwards env r → FailsAt env p ctx st r) ∧
      ((∀ r, st.Onwards env r →
          (∃ v stop, MatchesAt env p ctx st r v stop) ∨ FailsAt env p ctx st r) →
        ((∃ v stop, MatchesAt env (.seek p) ctx st st.cursor v stop) ↔
          ∃ r v stop, st.Onwards env r ∧ MatchesAt env p ctx st r v stop))) := by
  have hquiet := hnever.unpending
  refine ⟨answers_seek_iff hquiet hpending, fun hp => ⟨fun v stop => ?_, ?_, ?_⟩⟩
  · exact seek_matches_iff hp hquiet hpending hin
  · exact seek_fails_iff hp hquiet hpending hin
  · exact seek_matches_of_total hp hquiet hpending hin

def figureRule : Rule := { name := "figure", ty := .char }

open Notation in
/-- Letters of two bytes before a figure. -/
def figureEnv : Env :=
  .of "é é7".toList fun name => if name = "figure" then some ⟨digit, false⟩ else none

/-- The state at the start of the letters. -/
def figureStart : State := { cursor := .start "é é7".toList }

theorem figureRule_forgets :
    Forgets figureEnv (Notation.call figureRule) { skipper := some Notation.space } := by
  apply Forgets.of_isPlain rfl
  · decide
  · exact Grammar.All.of_single _ (by decide)
  · rintro s ⟨⟩
    decide
  · exact nofun

open Notation in
/-- The figure is found behind the letters, with blanks skipped before it. -/
theorem seek_leftmost_figure :
    Forgets figureEnv (call figureRule) { skipper := some space } ∧
    ∃ v r, figureStart.Onwards figureEnv r ∧
      MatchesAt figureEnv (call figureRule) { skipper := some space } figureStart r v ⟨6, []⟩ ∧
      ∀ r', figureStart.Onwards figureEnv r' → r'.offset < r.offset →
        FailsAt figureEnv (call figureRule) { skipper := some space } figureStart r' := by
  have hnever : NeverRecords figureEnv (call figureRule) { skipper := some space } :=
    .of_untracked rfl
  have hstop : (parse figureEnv 8 (.seek (call figureRule)) { skipper := some space }
      (figureStart.moveTo figureStart.cursor)).stop? = some ⟨6, []⟩ := by
    decide +kernel
  obtain ⟨v, hfound⟩ := matchesAt_of_stop hstop
  have hleftmost := (@seek_leftmost figureEnv (call figureRule) { skipper := some space }
    figureStart (by decide) rfl hnever).2 figureRule_forgets
  exact ⟨figureRule_forgets, v, (hleftmost.1 v ⟨6, []⟩).mp hfound⟩

/-- A parser that seeks the subject fails, although there is a place where the subject matches from
    the same state. -/
def Overlooks (env : Env) (p : Grammar) (ctx : Ctx) (st : State) : Prop :=
  FailsAt env (.seek p) ctx st st.cursor ∧
    ∃ r v stop, st.Onwards env r ∧ MatchesAt env p ctx st r v stop

theorem overlooks_of_runs {env : Env} {p : Grammar} {ctx : Ctx} {st : State} {r : Cursor}
    (n : Nat) (stop : Cursor) (hr : st.Onwards env r)
    (hmiss : (parse env n (.seek p) ctx (st.moveTo st.cursor)).isFailed = true)
    (hhit : (parse env n p ctx (st.moveTo r)).stop? = some stop) : Overlooks env p ctx st := by
  obtain ⟨v, hv⟩ := matchesAt_of_stop hhit
  exact ⟨failsAt_of_isFailed hmiss, r, v, stop, hr, hv⟩

/-- Skips a blank the first two times that it is asked, and none later. -/
def scriptedBlank : Grammar := .seq [.eps (.scripted 0 [true, true]), Notation.lit ' ']

/-- A hook that accepts a letter if it has rejected none so far. -/
def acceptFirst : Action := fun s e =>
  match e.get? Key.counter, e.attr with
  | some (.int 0), .char 'b' => e
  | _, _ => (Command.run s e .bump).fail

def firstRule : Rule := { name := "first", ty := .char, onSuccess := some acceptFirst }

open Notation in
/-- What the attempts before have left counts. Two letters are not found behind another one, as the
    skipper has come to the end of its script before the blank between them; nor is a letter, as
    the hook of its rule has rejected another one before it. Each of them would match there at
    once, and there is no action, no script and no commit point in them. -/
theorem seek_overlooks :
    ((char 'a' >>> char 'b').All (·.isPlain = true) ∧
      NeverRecords (.of "aa b".toList fun _ => none) (char 'a' >>> char 'b')
        { skipper := some scriptedBlank } ∧
      Overlooks (.of "aa b".toList fun _ => none) (char 'a' >>> char 'b')
        { skipper := some scriptedBlank } { cursor := .start "aa b".toList }) ∧
    NeverRecords (.of "ab".toList fun _ => some ⟨anyChar, false⟩) (call firstRule)
        { chain := [.bind Key.counter (.cell (.shared 0))] } ∧
      Overlooks (.of "ab".toList fun _ => some ⟨anyChar, false⟩) (call firstRule)
        { chain := [.bind Key.counter (.cell (.shared 0))] }
        { cursor := .start "ab".toList, shared := [(0, .int 0)] } := by
  refine ⟨⟨by decide, .of_untracked rfl, ?_⟩, .of_untracked rfl, ?_⟩
  · have hplace : State.Onwards (.of "aa b".toList fun _ => none)
        { cursor := .start "aa b".toList } ⟨1, "a b".toList⟩ := ⟨by decide, by decide⟩
    exact overlooks_of_runs 16 ⟨4, []⟩ hplace (by decide +kernel) (by decide +kernel)
  · have hplace : State.Onwards (.of "ab".toList fun _ => some ⟨anyChar, false⟩)
        { cursor := .start "ab".toList, shared := [(0, .int 0)] } ⟨1, "b".toList⟩ :=
      ⟨by decide, by decide⟩
    exact overlooks_of_runs 16 ⟨2, []⟩ hplace (by decide +kernel) (by decide +kernel)

end Peg
