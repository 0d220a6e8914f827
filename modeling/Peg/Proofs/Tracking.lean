/-
  Peg.Proofs.Tracking

  Recording failures changes nothing until a commit point misses. A run that
  records failures is followed up to its first miss by the run that does not, and
  only after a miss do the two part. That a commit point misses is said with a
  parse that stops there.
-/
import Peg.Grammar.Notation
import Peg.Proofs.Lockstep
import Peg.Proofs.Rollback

namespace Peg

/-! ## The first miss -/

/-- A commit point that stops the parse when it misses. -/
def expectUntilMiss (rec : Grammar → Ctx → Step) (ctx : Ctx) (p : Grammar) : Step := fun st =>
  (rec p ctx st).cases .matched fun st' => .stopped ⟨.exhausted, st'.record ⟨st'.offset, p.what⟩⟩

/-- One node of a parse that stops at the first miss. -/
def stepUntilMiss (env : Env) (rec : Grammar → Ctx → Step) : Grammar → Ctx → Step
  | .expect p, ctx => expectUntilMiss rec ctx p
  | g, ctx => Node.step env rec g ctx

/-- Parsing, up to the first miss of a commit point that records failures. -/
def parseUntilMiss (env : Env) : Nat → Grammar → Ctx → Step
  | 0, _, _ => fun st => .stopped ⟨.exhausted, st⟩
  | n + 1, g, ctx =>
    if ctx.tracking then stepUntilMiss env (parseUntilMiss env n) g ctx else parse env (n + 1) g ctx

/-- The halt at a miss. -/
def Halt.Missed (h : Halt) : Prop := h.state.failure.isSome = true

theorem stepUntilMiss_of_ne {env : Env} {rec : Grammar → Ctx → Step} {g : Grammar} {ctx : Ctx}
    (h : ∀ p, g ≠ .expect p) : stepUntilMiss env rec g ctx = Node.step env rec g ctx := by
  cases g with
  | expect p => exact absurd rfl (h p)
  | _ => rfl

theorem parseUntilMiss_tracked (env : Env) (n : Nat) (g : Grammar) {ctx : Ctx}
    (h : ctx.tracking = true) :
    parseUntilMiss env (n + 1) g ctx = stepUntilMiss env (parseUntilMiss env n) g ctx := by
  rw [parseUntilMiss, if_pos h]

theorem parseUntilMiss_untracked (env : Env) (n : Nat) (g : Grammar) {ctx : Ctx}
    (h : ctx.tracking = false) : parseUntilMiss env n g ctx = parse env n g ctx := by
  cases n with
  | zero => rfl
  | succ n => rw [parseUntilMiss, if_neg (Bool.eq_false_iff.mp h)]

theorem stepUntilMiss_below {env : Env} {rec rec' : Grammar → Ctx → Step}
    (h : ∀ g ctx st, (rec g ctx st).Below Halt.Missed (rec' g ctx st)) (g : Grammar) (ctx : Ctx)
    (st : State) :
    (stepUntilMiss env rec g ctx st).Below Halt.Missed (Node.step env rec' g ctx st) := by
  by_cases hg : ∃ p, g = .expect p
  · obtain ⟨p, rfl⟩ := hg
    exact (h p ctx st).cases (fun _ _ => .refl _)
      (fun st' => .inr ⟨_, rfl, Failure.record_isSome st'.failure _⟩)
  · rw [stepUntilMiss_of_ne fun p hp => hg ⟨p, hp⟩]
    exact Node.step_below h g ctx st

/-- Up to the first miss it is the parse itself. -/
theorem parseUntilMiss_below (env : Env) (n : Nat) (g : Grammar) (ctx : Ctx) (st : State) :
    (parseUntilMiss env n g ctx st).Below Halt.Missed (parse env n g ctx st) := by
  induction n generalizing g ctx st with
  | zero => exact .refl _
  | succ n ih =>
    cases ht : ctx.tracking with
    | true =>
      rw [parseUntilMiss_tracked env n g ht, parse_succ]
      exact stepUntilMiss_below ih g ctx st
    | false =>
      rw [parseUntilMiss_untracked env _ g ht]
      exact .refl _

/-! ## Until the first miss -/

/-- In neither parse a failure is on record. -/
def Tie.silent (keep : Option Failure → Prop) (halts : Halt → Prop) : Tie :=
  ⟨fun failure failure' => failure = none ∧ failure' = none, keep, halts⟩

theorem Tie.silent_quiet (keep : Option Failure → Prop) (halts : Halt → Prop) (b b' : Bool) :
    (Tie.silent keep halts).Quiet b b' := by
  rintro st _ ⟨failure, journal, h, rfl⟩
  simp [h]

variable {env : Env} {D : Discipline} (keep : Option Failure → Prop) (halts : Halt → Prop)

/-- The parse that records nothing follows the one that records failures, up to the first miss. -/
theorem parseUntilMiss_simulates (henv : env.Under D)
    (hhalts : ∀ p, D.node (.expect p) → ∀ h, halts h → ¬ h.Missed) (n : Nat) (g : Grammar)
    {c c' : Ctx} (hg : D.node g)
    (hc : (Lockstep.twins env (.silent keep halts) D henv
      (Tie.silent_quiet keep halts true false)).ctx c c') :
    (Tie.silent keep halts).Simulates (parseUntilMiss env n g c) (parse env n g c') := by
  induction n generalizing g c c' with
  | zero => exact .stopped .exhausted
  | succ n ih =>
    rw [parseUntilMiss_tracked env n g hc.2.2.1, parse_eq_step]
    by_cases hexpect : ∃ p, g = .expect p
    · obtain ⟨p, rfl⟩ := hexpect
      rw [Node.step, Node.expect_untracked hc.2.2.2]
      intro st
      rw [stepUntilMiss, expectUntilMiss, Outcome.meets_cases]
      -- after a miss the parse has stopped, and there is nothing to follow
      refine (ih p (D.child hg List.mem_cons_self) hc st).mono (fun _ _ h1 => h1)
        (fun st1 _ hh => ?_) (fun _ hh => hh)
      exact absurd (Failure.record_isSome st1.failure _) (hhalts p hg _ hh)
    · have hne : ∀ p, g ≠ .expect p := fun p hp => hexpect ⟨p, hp⟩
      rw [stepUntilMiss_of_ne hne]
      refine Lockstep.twins_step henv (Tie.silent_quiet keep halts true false) _ _
        (fun q c c' hq hc => ih q hq hc) (fun s => ?_) hg hc fun p hp => absurd hp (hne p)
      rw [parseUntilMiss_untracked env n s rfl]
      exact parse_untracked _ env n s (.refl _) rfl rfl

/-- A parse that ends without a failure on record came across no miss. -/
theorem parse_simulates_untilMiss (env : Env) (n : Nat) (g : Grammar) {c c' : Ctx}
    (hc : (Lockstep.twins env (.silent (· = none) fun _ => False) .any (Discipline.any_env env)
      (Tie.silent_quiet _ _ true true)).ctx c c') :
    (Tie.silent (· = none) fun _ => False).Simulates (parse env n g c)
      (parseUntilMiss env n g c') := by
  induction n generalizing g c c' with
  | zero => exact .stopped .exhausted
  | succ n ih =>
    rw [parseUntilMiss_tracked env n g hc.2.2.2, parse_eq_step]
    by_cases hexpect : ∃ p, g = .expect p
    · obtain ⟨p, rfl⟩ := hexpect
      intro st
      rw [Node.step, Node.meets_expect]
      refine (ih p hc st).mono (fun v st1 h1 => h1.mono fun u u1 _ _ e => ?_) (fun st1 _ => ?_)
        (fun _ _ hh => hh.elim)
      · simp only [stepUntilMiss, expectUntilMiss, e, Outcome.cases_matched]
      · -- what is recorded here stays on record
        dsimp only
        rw [if_pos hc.2.2.1]
        refine (Node.settles_trivial _).mono (fun st2 _ hnone => ?_) (fun _ _ hh => hh.elim)
        have hsome := Failure.record_isSome st2.failure ⟨st2.offset, p.what⟩
        rw [show Failure.record st2.failure ⟨st2.offset, p.what⟩ = none from hnone] at hsome
        cases hsome
    · have hne : ∀ p, g ≠ .expect p := fun p hp => hexpect ⟨p, hp⟩
      rw [stepUntilMiss_of_ne hne]
      refine Lockstep.twins_step (Discipline.any_env env) (Tie.silent_quiet _ _ true true) _ _
        (fun q c c' _ hc => ih q hc) (fun s => ?_) trivial hc fun p hp => absurd hp (hne p)
      rw [parseUntilMiss_untracked env n s rfl]
      exact parse_untracked _ env n s (.refl _) rfl rfl

/-! ## Runs -/

/-- The node is a commit point. -/
def Grammar.isExpect : Grammar → Bool
  | .expect _ => true
  | _ => false

/-- Grammars without commit points. Skippers may have some, which record nothing. -/
def uncommitted : Discipline where
  node g := g.All (·.isExpect = false)
  skipper _ := True
  body g := g.All (·.isExpect = false)
  child h hq := h.child hq
  skipWith _ := trivial
  define h := h.child List.mem_cons_self
  ofBody h := h

theorem Tie.Same.silent {keep keep' : Option Failure → Prop} {halts halts' : Halt → Prop}
    {st u : State} (h : (Tie.silent keep halts).Same st u) :
    (Tie.silent keep' halts').Same st u := by
  obtain ⟨failure, journal, h⟩ := h
  exact .intro failure journal h

/-- The states at the start of a text are tied. -/
theorem Tie.silent_start (source : Text) : (Tie.silent keep halts).Same
    { cursor := .start source } { cursor := .start source } := .intro none [] ⟨rfl, rfl⟩

namespace Program

/-- In a run that records failures a commit point misses. -/
def Misses (p : Program) (fuel : Nat) (source : Text) : Prop :=
  ∃ h, parseUntilMiss (p.env source) fuel p.grammar (p.context ⟨true, true⟩)
    { cursor := .start source } = .stopped h ∧ h.Missed

/-- The runs gave the same answer, but for the journal, or halted for the same reason. -/
def Agree (o o' : Except Halt Run) : Prop :=
  match o, o' with
  | .ok r, .ok r' => r' = { r with journal := r'.journal }
  | .error h, .error h' => h'.why = h.why
  | _, _ => False

/-- There are no commit points in the grammar and in the bodies of the rules. -/
structure Uncommitted (p : Program) : Prop where
  grammar : p.grammar.All (·.isExpect = false)
  rules : ∀ entry ∈ p.rules, entry.2.body.All (·.isExpect = false)

variable (p : Program) (fuel : Nat) (postSkip : Bool) (target : Ty) (slot : Value) (source : Text)

theorem twins_context (b b' b'' : Bool) :
    (p.context ⟨b, b'⟩).Twins (p.context ⟨b, b''⟩) :=
  ⟨⟨rfl, rfl, rfl, rfl, rfl⟩, fun _ => rfl⟩

theorem report_agree {keep : Option Failure → Prop} {halts : Halt → Prop} (matched : Bool)
    {st u : State} (h : (Tie.silent keep halts).Same st u) :
    Agree (.ok (report source matched slot st)) (.ok (report source matched slot u)) := by
  obtain ⟨failure, journal, hst, rfl⟩ := h
  simp only [Agree, report, hst]
  rfl

/-- The skipper after a match records nothing in either run. -/
theorem afterMatch_leads (T : Tie) (b b' : Bool) :
    T.Leads (p.afterMatch fuel ⟨postSkip, b⟩ source)
      (p.afterMatch fuel ⟨postSkip, b'⟩ source) := by
  cases postSkip with
  | true =>
    exact Node.skipOver_leads (p.twins_context true b b').alike
      fun s => parse_untracked T _ fuel s (.refl _) rfl rfl
  | false => exact fun st => (Tie.Carries.refl st).mono fun _ _ _ _ e => e ▸ rfl

/-- Without commit points none misses. -/
theorem Uncommitted.not_misses {p : Program} (h : p.Uncommitted) : ¬ p.Misses fuel source := by
  rintro ⟨hlt, hstop, hmissed⟩
  have henv : (p.env source).Under uncommitted := fun r d _ hd => h.rules _ (p.mem_of_env hd)
  have hsim := parseUntilMiss_simulates (fun _ => True) (fun _ => True) henv
    (fun q hq => nomatch Grammar.All.self hq) fuel p.grammar h.grammar
    ⟨p.twins_context true true false, ⟨fun _ _ => trivial, nofun⟩, rfl, rfl⟩
    { cursor := .start source }
  rw [hstop] at hsim
  obtain ⟨_, -, hsame⟩ := (hsim trivial trivial).2 _ (Tie.silent_start _ _ source)
  cases hsame with
  | intro _ _ hnone =>
    rw [Halt.Missed, hnone.1] at hmissed
    cases hmissed

/-- How a run ends, given the outcome of its parse. -/
def finish (b : Bool) : Outcome → Except Halt Run
  | .stopped h => .error h
  | .failed st => .ok (report source false slot st)
  | .matched v st => do
    let st ← p.afterMatch fuel ⟨postSkip, b⟩ source st
    return report source true (Value.merge target p.grammar.ty slot v) st

/-- The parse of a run, with failures recorded or not. -/
def parseTracking (b : Bool) : Outcome :=
  parse (p.env source) fuel p.grammar (p.context ⟨true, b⟩) { cursor := .start source }

theorem runWithin_eq_finish (b : Bool) :
    p.runWithin fuel ⟨postSkip, b⟩ target slot source =
      p.finish fuel postSkip target slot source b (p.parseTracking fuel source b) := by
  have hparse : parse (p.env source) fuel p.grammar (p.context ⟨postSkip, b⟩)
      { cursor := .start source } = p.parseTracking fuel source b := rfl
  rw [runWithin, hparse]
  cases p.parseTracking fuel source b <;> rfl

/-- Until the first miss the run that records nothing does the same. -/
theorem agree_of_not_misses (h : ¬ p.Misses fuel source) :
    Agree (p.runWithin fuel ⟨postSkip, true⟩ target slot source)
      (p.runWithin fuel ⟨postSkip, false⟩ target slot source) := by
  have hsim := parseUntilMiss_simulates (fun _ => True) (¬ ·.Missed)
    (Discipline.any_env (p.env source)) (fun _ _ _ h => h) fuel p.grammar trivial
    ⟨p.twins_context true true false, Discipline.any_ctx _, rfl, rfl⟩ { cursor := .start source }
  -- no miss stops the parse, and so it is the whole parse of the run
  have hwhole : parseUntilMiss (p.env source) fuel p.grammar (p.context ⟨true, true⟩)
      { cursor := .start source } = p.parseTracking fuel source true :=
    (parseUntilMiss_below ..).eq_of_not fun hlt he hm => h ⟨hlt, he, hm⟩
  have hstart := Tie.silent_start (fun _ => True) (¬ ·.Missed) source
  rw [hwhole] at hsim
  rw [runWithin_eq_finish, runWithin_eq_finish]
  cases hp : p.parseTracking fuel source true with
  | matched v st =>
    rw [hp] at hsim
    obtain ⟨u, hu, hsame⟩ := (hsim trivial).2 _ hstart
    rw [parseTracking, hu, finish, finish]
    have hafter := p.afterMatch_leads fuel postSkip source
      (.silent (fun _ => True) fun _ => True) true false st
    cases ha : p.afterMatch fuel ⟨postSkip, true⟩ source st with
    | ok st1 =>
      rw [ha] at hafter
      obtain ⟨u1, hu1, hsame1⟩ := (hafter trivial).2 u hsame.silent
      rw [hu1]
      exact report_agree _ _ true hsame1
    | error hlt =>
      rw [ha] at hafter
      obtain ⟨u1, hu1, -⟩ := (hafter trivial trivial).2 u hsame.silent
      rw [hu1]
      rfl
  | failed st =>
    rw [hp] at hsim
    obtain ⟨u, hu, hsame⟩ := (hsim trivial).2 _ hstart
    rw [parseTracking, hu, finish, finish]
    exact report_agree _ _ false hsame
  | stopped hlt =>
    rw [hp] at hsim
    obtain ⟨u, hu, -⟩ := (hsim (fun hm => h ⟨hlt, hwhole.trans hp, hm⟩) trivial).2 _ hstart
    rw [parseTracking, hu, finish, finish]
    rfl

/-- A run with no failure on record at its end came across no miss. -/
theorem not_misses_of_ok {r : Run}
    (h : p.runWithin fuel ⟨postSkip, true⟩ target slot source = .ok r)
    (hnone : r.result.failure = none) : ¬ p.Misses fuel source := by
  rintro ⟨hlt, hstop, -⟩
  have hsim := parse_simulates_untilMiss (p.env source) fuel p.grammar
    ⟨p.twins_context true true true, Discipline.any_ctx _, rfl, rfl⟩ { cursor := .start source }
  have hstart := Tie.silent_start (· = none) (fun _ => False) source
  rw [runWithin_eq_finish] at h
  cases hp : p.parseTracking fuel source true with
  | matched v st =>
    rw [hp, finish] at h
    have hafter := p.afterMatch_leads fuel postSkip source
      (.silent (· = none) fun _ => False) true true st
    cases ha : p.afterMatch fuel ⟨postSkip, true⟩ source st with
    | ok st1 =>
      rw [ha] at h hafter
      cases h
      -- the skipper after the match recorded nothing either
      rw [show parse _ _ _ _ _ = _ from hp] at hsim
      obtain ⟨u, hu, -⟩ := (hsim (hafter hnone).1).2 _ hstart
      rw [hstop] at hu
      cases hu
    | error hlt' =>
      rw [ha] at h
      cases h
  | failed st =>
    rw [hp] at h
    cases h
    rw [show parse _ _ _ _ _ = _ from hp] at hsim
    obtain ⟨u, hu, -⟩ := (hsim hnone).2 _ hstart
    rw [hstop] at hu
    cases hu
  | stopped hlt' =>
    rw [hp] at h
    cases h

end Program

/-- Recording failures only observes a run until a commit point misses. A run that records failures
    and ends with none on record gives the same answer as the run that records none. The same goes
    for every run, also one that halts, in which no commit point misses; where one misses, an
    answer has a failure on record. Without commit points none misses. -/
theorem tracking_observes (p : Program) (fuel : Nat) (postSkip : Bool) (target : Ty)
    (slot : Value) (source : Text) :
    let run b := p.runWithin fuel ⟨postSkip, b⟩ target slot source
    (∀ r, run true = .ok r → r.result.failure = none → Program.Agree (run true) (run false)) ∧
    (¬ p.Misses fuel source → Program.Agree (run true) (run false)) ∧
    (p.Misses fuel source → ∀ r, run true = .ok r → r.result.failure ≠ none) ∧
    (p.Uncommitted → ¬ p.Misses fuel source ∧ Program.Agree (run true) (run false)) := by
  have agree := p.agree_of_not_misses fuel postSkip target slot source
  have ofOk {r : Program.Run} := p.not_misses_of_ok fuel postSkip target slot source (r := r)
  refine ⟨fun r h hnone => agree (ofOk h hnone), agree, fun hm r h hnone => ofOk h hnone hm,
    fun h => ?_⟩
  have hnot := h.not_misses fuel source
  exact ⟨hnot, agree hnot⟩

open Notation in
/-- A letter, and then another one or it is a mistake, with space between them. -/
def couple : Program := { grammar := lit 'a' >>> expect 'b', skipper := some space }

open Notation in
/-- Any number of letters. -/
def letters : Program := { grammar := kleene (char 'a') }

/-- The commit point is passed, and the run that records nothing does the same. It misses in another
    text, and a failure is on record there. -/
theorem tracking_observes_couple :
    (∃ r, couple.runWithin 8 ⟨true, true⟩ .unused .unused "a b".toList = .ok r ∧
      r.result.failure = none ∧ r.result.matched = true ∧
      Program.Agree (.ok r) (couple.runWithin 8 ⟨true, false⟩ .unused .unused "a b".toList)) ∧
    ¬ couple.Misses 8 "a b".toList ∧
    (∃ r, couple.runWithin 8 ⟨true, true⟩ .unused .unused "a c".toList = .ok r ∧
      couple.Misses 8 "a c".toList ∧ r.result.failure ≠ none) ∧
    letters.Uncommitted ∧ ¬ letters.Misses 8 "aa".toList := by
  have hmatch := tracking_observes couple 8 true .unused .unused "a b".toList
  have hmiss := tracking_observes couple 8 true .unused .unused "a c".toList
  have hfree : letters.Uncommitted := ⟨by decide, nofun⟩
  have hletters := tracking_observes letters 8 true .unused .unused "aa".toList
  have hmisses : couple.Misses 8 "a c".toList := ⟨_, rfl, rfl⟩
  refine ⟨⟨_, rfl, rfl, rfl, hmatch.1 _ rfl rfl⟩, ?_, ⟨_, rfl, hmisses, hmiss.2.2.1 hmisses _ rfl⟩,
    hfree, (hletters.2.2.2 hfree).1⟩
  exact fun hm => hmatch.2.2.1 hm _ rfl rfl

end Peg
