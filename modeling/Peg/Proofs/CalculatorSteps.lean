/-
  Peg.Proofs.CalculatorSteps

  What the parsers of the calculator do, told by what its rules look at: where
  the cursor is and which number the rule variable holds. A parser yields a number
  and leaves the variable alone, or it updates the variable. A parser that refuses
  leaves both as they were, so an abandoned branch leaves nothing behind; it may
  have recorded a failure, and then nothing else is tried.
-/
import Peg.Calculator.Basic
import Peg.Proofs.Approximation
import Peg.Proofs.Expressions

namespace Peg

open Text

-- ============================================================================
-- Cursors
-- ============================================================================

namespace Cursor

/-- The cursor after `taken`, with `rest` left. -/
def past (c : Cursor) (taken rest : Text) : Cursor := ⟨c.offset + byteLength taken, rest⟩

@[simp] theorem past_rest (c : Cursor) (a r : Text) : (c.past a r).rest = r := rfl

@[simp] theorem past_offset (c : Cursor) (a r : Text) :
    (c.past a r).offset = c.offset + byteLength a := rfl

@[simp] theorem past_past (c : Cursor) (a b r r' : Text) :
    (c.past a r).past b r' = c.past (a ++ b) r' := by
  simp [past, Nat.add_assoc]

@[simp] theorem past_nil (c : Cursor) : c.past [] c.rest = c := rfl

theorem In.past {c : Cursor} {t a r : Text} (h : c.In t) (hr : c.rest = a ++ r) :
    (c.past a r).In t := by
  obtain ⟨before, ht, ho⟩ := h
  exact ⟨before ++ a, by rw [ht, hr, past_rest, List.append_assoc],
    by rw [past_offset, ho, byteLength_append]⟩

theorem advance?_past {c : Cursor} {a r : Text} (hr : c.rest = a ++ r) :
    c.advance? (byteLength a) = some (c.past a r) := by
  rw [advance?, hr, dropBytes?_append]
  rfl

/-- What is before a cursor in a text and what is after it make up its length. -/
theorem In.length {c : Cursor} {t : Text} (h : c.In t) :
    c.offset + byteLength c.rest = byteLength t := by
  obtain ⟨before, ht, ho⟩ := h
  rw [ht, ho, byteLength_append]

/-- A cursor that has counted the whole text has nothing left. -/
theorem In.rest_eq_nil {c : Cursor} {t : Text} (h : c.In t) (hc : c.offset = byteLength t) :
    c.rest = [] := by
  have hlen := h.length
  cases hrest : c.rest with
  | nil => rfl
  | cons a r =>
    have := a.utf8Size_pos
    rw [hrest, byteLength_cons] at hlen
    omega

/-- The cursor after all characters that pass a test. -/
def across (f : Char → Bool) (c : Cursor) : Cursor :=
  c.past (c.rest.takeWhile f) (c.rest.dropWhile f)

variable {f : Char → Bool} {c : Cursor}

theorem In.across {t : Text} (h : c.In t) : (c.across f).In t :=
  h.past List.takeWhile_append_dropWhile.symm

theorem across_of_avoids (h : Avoids f c.rest) : c.across f = c := by
  have hd : c.rest.dropWhile f = c.rest := by
    simpa using dropWhile_append_of_avoids (d := []) nofun h
  have ht : c.rest.takeWhile f = [] := by
    simpa using takeWhile_append_of_avoids (d := []) nofun h
  rw [across, ht, hd, past_nil]

@[simp] theorem across_across : (c.across f).across f = c.across f :=
  across_of_avoids (avoids_dropWhile f c.rest)

theorem across_of_append {a r : Text} (h : c.rest = a ++ r) (ha : ∀ d ∈ a, f d = true)
    (hr : Avoids f r) : c.across f = c.past a r := by
  rw [across, h, takeWhile_append_of_avoids ha hr, dropWhile_append_of_avoids ha hr]

theorem across_cons {a : Char} {r : Text} (h : c.rest = a :: r) (ha : f a = true) :
    c.across f = (c.past [a] r).across f := by
  simp [across, h, ha]

end Cursor

/-- A skipper does what a repetition does and keeps no values. -/
theorem Node.skipLoop_eq (p : Step) (n : Nat) (st : State) (vs : List Value) :
    skipLoop p n st = (repeatLoop p n vs st).map (·.2) := by
  induction n generalizing vs st with
  | zero => rfl
  | succ n ih =>
    rw [skipLoop, repeatLoop]
    cases p st with
    | matched v st' =>
      dsimp only
      split
      · rfl
      · exact ih ..
    | failed st' => rfl
    | stopped h => rfl

/-- The parser takes one character that passes the test and refuses in front of any other text,
    while `F` is on record. -/
structure Takes (F : Option Failure) (p : Step) (f : Char → Bool) : Prop where
  hit : ∀ st a r, st.failure = F → st.cursor.rest = a :: r → f a = true →
    ∃ v, p st = .matched v (st.moveTo (st.cursor.past [a] r))
  miss : ∀ st, st.failure = F → Avoids f st.cursor.rest → p st = .failed st

namespace Takes

variable {F : Option Failure} {p q : Step} {f g : Char → Bool} {st : State}

/-- A repetition of single characters goes over all of them. -/
theorem repeatLoop (st : State) (h : Takes st.failure p f) {n : Nat}
    (hn : byteLength st.cursor.rest < n) (vs : List Value) :
    ∃ vs', Node.repeatLoop p n vs st = .ok (vs', st.moveTo (st.cursor.across f)) := by
  -- by induction on the text that is left
  generalize ht : st.cursor.rest = t at hn
  induction t generalizing n st vs with
  | nil =>
    obtain ⟨n, rfl⟩ := Nat.exists_eq_succ_of_ne_zero (Nat.ne_zero_of_lt hn)
    have hnone : Avoids f st.cursor.rest := by rw [ht]; exact avoids_nil
    rw [Node.repeatLoop, h.miss st rfl hnone, Cursor.across_of_avoids hnone]
    exact ⟨vs, rfl⟩
  | cons a r ih =>
    obtain ⟨n, rfl⟩ := Nat.exists_eq_succ_of_ne_zero (Nat.ne_zero_of_lt hn)
    cases ha : f a with
    | false =>
      have hnone : Avoids f st.cursor.rest := by rw [ht]; exact avoids_cons.mpr ha
      rw [Node.repeatLoop, h.miss st rfl hnone, Cursor.across_of_avoids hnone]
      exact ⟨vs, rfl⟩
    | true =>
      obtain ⟨v, hv⟩ := h.hit st a r rfl ht ha
      have hpos := a.utf8Size_pos
      rw [byteLength_cons] at hn
      obtain ⟨vs', hvs⟩ :=
        ih (st.moveTo (st.cursor.past [a] r)) h (v :: vs) rfl (n := n) (by omega)
      rw [Node.repeatLoop, hv]
      dsimp only
      rw [if_neg (by simp; omega), hvs, Cursor.across_cons ht ha]
      exact ⟨vs', rfl⟩

/-- A skipper of single characters goes over all of them. -/
theorem skipLoop (h : Takes st.failure p f) {n : Nat} (hn : byteLength st.cursor.rest < n) :
    Node.skipLoop p n st = .ok (st.moveTo (st.cursor.across f)) := by
  obtain ⟨vs, hvs⟩ := h.repeatLoop st hn []
  rw [Node.skipLoop_eq p n st [], hvs]
  rfl

/-- One character or, unless a failure is pending, another. -/
theorem alt {ctx : Ctx} {l r : Ty} (hp : Takes F p f) (hq : Takes F q g) :
    Takes F (Node.alt ctx l r p q) fun c => f c || (!(ctx.tracking && F.isSome) && g c) where
  hit := by
    intro st a rest hfail hrest ha
    cases hfa : f a with
    | true =>
      obtain ⟨v, hv⟩ := hp.hit st a rest hfail hrest hfa
      exact ⟨_, by rw [Node.alt, hv]; rfl⟩
    | false =>
      rw [hfa, Bool.false_or, Bool.and_eq_true, Bool.not_eq_true', ← hfail] at ha
      obtain ⟨hpending, hga⟩ := ha
      have hmiss := hp.miss st hfail (by rw [hrest]; exact avoids_cons.mpr hfa)
      obtain ⟨v, hv⟩ := hq.hit st a rest hfail hrest hga
      refine ⟨Value.alternativeRight l r v, ?_⟩
      rw [Node.alt, hmiss, Outcome.cases_failed, State.pending, hpending, hv]
      rfl
  miss := by
    intro st hfail hrest
    have hmiss := hp.miss st hfail (hrest.mono fun c h => by simp [h])
    rw [Node.alt, hmiss, Outcome.cases_failed, State.pending, hfail]
    split
    · rfl
    · rename_i hpending
      rw [hq.miss st hfail (hrest.mono fun c h => by simp [h, hpending])]
      rfl

end Takes

@[simp] theorem State.moveTo_moveTo (st : State) (c d : Cursor) :
    (st.moveTo c).moveTo d = st.moveTo d := rfl

@[simp] theorem State.moveTo_self (st : State) : st.moveTo st.cursor = st := rfl

-- ============================================================================
-- Scenes
-- ============================================================================

namespace Calculator

/-- The context of every parser of the calculator, inside a rule or outside of all rules. -/
def scene (varTy : Option Ty) : Ctx :=
  { skipper := some Notation.space, tracking := true, varTy }

/-- Either there is that much fuel, or every halt is allowed. -/
def Enough (H : Halt → Prop) (n k : Nat) : Prop := k ≤ n ∨ ∀ h, H h

variable {H : Halt → Prop} {env : Env} {n m k : Nat}

theorem Enough.mono (h : Enough H n k) (hk : m ≤ k) : Enough H n m := h.imp (Nat.le_trans hk) id

theorem Enough.pred (h : Enough H (n + 1) (k + 1)) : Enough H n k := h.imp Nat.le_of_succ_le_succ id

/-- Further down there is as much less fuel as there is less need of it. -/
theorem Enough.below {j : Nat} (h : Enough H n k) (hm : n + j ≤ m + k) : Enough H m j :=
  h.imp (fun hk => by omega) id

theorem Enough.halts (h : Enough H 0 (k + 1)) : ∀ hlt, H hlt :=
  h.resolve_left (Nat.not_succ_le_zero k)

/-- A parser with fuel does what its node does, and one without fuel halts. -/
theorem parse_meets {g : Grammar} {ctx : Ctx} {st : State} {Q : Post}
    (hn : Enough Q.halt n (k + 1))
    (h : ∀ m, n = m + 1 → Enough Q.halt m k → (Node.step env (parse env m) g ctx st).Meets Q) :
    (parse env n g ctx st).Meets Q := by
  cases n with
  | zero => exact hn.halts _
  | succ n =>
    rw [parse_succ]
    exact h n rfl hn.pred

/-- What is shown of a parser with a certain fuel holds with less when every halt is allowed. -/
theorem parse_meets_of_enough {g : Grammar} {ctx : Ctx} {st : State} {Q : Post}
    (hn : Enough Q.halt n k) (h : ∀ m, (parse env (m + k) g ctx st).Meets Q) :
    (parse env n g ctx st).Meets Q := by
  obtain hn | hall := hn
  · obtain ⟨m, rfl⟩ := Nat.exists_eq_add_of_le' hn
    exact h m
  · obtain he | ⟨hlt, he, -⟩ := parse_below env (Nat.le_add_right n k) g ctx st
    · rw [he]
      exact h n
    · rw [he]
      exact hall hlt

/-! ## Single characters -/

theorem skipOver_idle {rec : Grammar → Ctx → Step} {ctx : Ctx}
    (h : ctx.skipping = false ∨ ctx.skipper = none) (st : State) :
    Node.skipOver env rec ctx st = .ok st := by
  obtain h | h := h <;> rw [Node.skipOver, h]
  cases ctx.skipping <;> rfl

/-- A terminal for single characters, where nothing is skipped. -/
theorem takes_terminal {ctx : Ctx} (F : Option Failure)
    (hctx : ctx.skipping = false ∨ ctx.skipper = none) {t : Terminal} {f : Char → Bool}
    (hit : ∀ a r, f a = true → ∃ v, t.scan ctx.noCase (a :: r) = some (a.utf8Size, v))
    (miss : ∀ r, Avoids f r → t.scan ctx.noCase r = none) :
    Takes F (parse env (n + 1) (.terminal t) ctx) f where
  hit := by
    intro st a r _ hrest ha
    obtain ⟨v, hv⟩ := hit a r ha
    have hadvance := Cursor.advance?_past (c := st.cursor) (a := [a]) (r := r) hrest
    rw [byteLength_cons, byteLength_nil, Nat.add_zero] at hadvance
    refine ⟨v, ?_⟩
    simp only [parse_succ, Node.step, skipOver_idle hctx, Node.afterSkip, Node.takeTerminal, hrest,
      hv, hadvance]
  miss := by
    intro st _ hrest
    simp only [parse_succ, Node.step, skipOver_idle hctx, Node.afterSkip, Node.takeTerminal,
      miss _ hrest]
    rfl

theorem takes_cls (env : Env) (n : Nat) {ctx : Ctx} (F : Option Failure)
    (hctx : ctx.skipping = false ∨ ctx.skipper = none) (k : CharClass) :
    Takes F (parse env (n + 1) (Notation.cls k) ctx) (k.test ctx.noCase) :=
  takes_terminal F hctx (fun a r ha => ⟨.char a, by simp [Terminal.scan, CharTest.test, ha]⟩)
    (fun r hr => by
      cases r with
      | nil => rfl
      | cons a r => simp [Terminal.scan, CharTest.test, avoids_cons.mp hr])

theorem takes_lit (env : Env) (n : Nat) {ctx : Ctx} (F : Option Failure)
    (hctx : ctx.skipping = false ∨ ctx.skipper = none) (a : Char) :
    Takes F (parse env (n + 1) (Notation.lit a) ctx) (agree ctx.noCase · a) :=
  takes_terminal F hctx (fun d r hd => ⟨.unused, by simp [Terminal.scan, hd]⟩)
    (fun r hr => by
      cases r with
      | nil => rfl
      | cons d r => simp [Terminal.scan, avoids_cons.mp hr])

/-! ## White space -/

theorem byteLength_lt_rounds (st : State) (hin : st.cursor.In env.source) :
    byteLength st.cursor.rest < Node.rounds env st := by
  have hlen := hin.length
  have hoff : st.cursor.offset = st.offset := rfl
  rw [Node.rounds, env.length_eq]
  omega

/-- The skipper goes over white space. -/
theorem skipOver_space (varTy : Option Ty) (hn : Enough H n 1) {st : State}
    (hin : st.cursor.In env.source) :
    Settles (Node.skipOver env (parse env n) (scene varTy) st)
      (· = st.moveTo (st.cursor.across isSpace)) H := by
  have hrounds := byteLength_lt_rounds st hin
  change Settles (Node.skipLoop (parse env n Notation.space Ctx.root) (Node.rounds env st) st) _ _
  cases n with
  | zero =>
    obtain ⟨k, hk⟩ := Nat.exists_eq_succ_of_ne_zero (Nat.ne_zero_of_lt hrounds)
    rw [hk, Node.skipLoop, parse_zero]
    exact hn.halts _
  | succ n =>
    have htakes : Takes st.failure (parse env (n + 1) Notation.space Ctx.root) isSpace :=
      takes_cls env n st.failure (.inr rfl) .space
    rw [htakes.skipLoop hrounds]
    rfl

/-! ## Terminals -/

/-- A terminal where white space is skipped. -/
theorem terminal_meets {t : Terminal} {varTy : Option Ty} {Q : Post} (hn : Enough Q.halt n 2)
    {st : State} (hin : st.cursor.In env.source)
    (hit : ∀ k v, t.scan false (st.cursor.across isSpace).rest = some (k, v) →
      ∃ a r, (st.cursor.across isSpace).rest = a ++ r ∧ byteLength a = k ∧
        Q.hit v (st.moveTo ((st.cursor.across isSpace).past a r)))
    (miss : t.scan false (st.cursor.across isSpace).rest = none → Q.miss st) :
    (parse env n (.terminal t) (scene varTy) st).Meets Q := by
  refine parse_meets hn fun m _ hm => ?_
  rw [Node.step, Node.meets_afterSkip]
  refine (skipOver_space varTy hm hin).mono (fun st1 h => ?_) fun _ h => h
  subst h
  rw [Node.takeTerminal, State.moveTo_cursor]
  cases hscan : t.scan false (st.cursor.across isSpace).rest with
  | none => simpa [scene, hscan] using miss hscan
  | some found =>
    obtain ⟨k, v⟩ := found
    obtain ⟨a, r, hrest, rfl, hQ⟩ := hit k v hscan
    simpa [scene, hscan, Cursor.advance?_past hrest] using hQ

theorem lit_meets {a : Char} {varTy : Option Ty} {Q : Post} (hn : Enough Q.halt n 2)
    {st : State} (hin : st.cursor.In env.source)
    (hit : ∀ r, (st.cursor.across isSpace).rest = a :: r →
      Q.hit .unused (st.moveTo ((st.cursor.across isSpace).past [a] r)))
    (miss : Avoids (· == a) (st.cursor.across isSpace).rest → Q.miss st) :
    (parse env n (Notation.lit a) (scene varTy) st).Meets Q := by
  refine terminal_meets hn hin (fun k v hscan => ?_) fun hscan => miss ?_
  · cases hrest : (st.cursor.across isSpace).rest with
    | nil =>
      rw [hrest] at hscan
      cases hscan
    | cons c r =>
      simp only [hrest, Terminal.scan, agree, Bool.false_eq_true, if_false] at hscan
      split at hscan
      · rename_i hc
        cases hscan
        obtain rfl := eq_of_beq hc
        exact ⟨[c], r, rfl, rfl, hit r hrest⟩
      · cases hscan
  · cases hrest : (st.cursor.across isSpace).rest with
    | nil => exact avoids_nil
    | cons c r =>
      rw [hrest] at hscan
      simpa [Terminal.scan, agree] using hscan

/-- A commit point whose subject refuses has a failure on record. -/
theorem expect_meets {g : Grammar} {varTy : Option Ty} {Q : Post} (hn : Enough Q.halt n 2)
    {st : State}
    (h : ∀ m, n = m + 1 → Enough Q.halt m 1 → (parse env m g (scene varTy) st).Meets
      ⟨Q.hit,
        fun st' => st'.cursor.In env.source ∧ ∀ st'' : State, st''.cursor = st'.cursor →
          st''.ruleVar = st'.ruleVar → st''.failure ≠ none → Q.miss st'',
        Q.halt⟩) :
    (parse env n (.expect g) (scene varTy) st).Meets Q := by
  refine parse_meets hn fun m hm hk => ?_
  rw [Node.step, Node.meets_expect]
  refine (h m hm hk).mono (fun _ _ h => h) (fun st' hmissed => ?_) fun _ h => h
  obtain ⟨hin, hmiss⟩ := hmissed
  refine (skipOver_space _ hk hin).mono (fun st1 h => ?_) fun _ h => h
  subst h
  refine hmiss _ rfl rfl fun hnone => ?_
  have hsome := Failure.record_isSome st'.failure ⟨(st'.cursor.across isSpace).offset, g.what⟩
  rw [Option.isSome_iff_ne_none] at hsome
  exact hsome hnone

/-! ## Names -/

/-- A letter, then letters, digits and underscores. -/
def wordBody : Grammar := Notation.alpha >>> Notation.kleene (Notation.orElse Notation.alnum '_')

/-- Letters are told in the same way where case is ignored. -/
theorem takes_alpha (env : Env) (n : Nat) {ctx : Ctx} (F : Option Failure)
    (hctx : ctx.skipping = false) :
    Takes F (parse env (n + 1) Notation.alpha ctx) Char.isAlpha := by
  have htest : CharClass.alpha.test ctx.noCase = Char.isAlpha := by cases ctx.noCase <;> rfl
  have := takes_cls env n F (.inl hctx) .alpha
  rwa [htest] at this

/-- What a word goes on with behind its letter: letters and digits, and the underscore, which is
    an alternative to them and so not tried while a failure is pending. -/
def wordTest (ctx : Ctx) (F : Option Failure) (c : Char) : Bool :=
  CharClass.alnum.test ctx.noCase c || (!(ctx.tracking && F.isSome) && agree ctx.noCase c '_')

theorem wordTest_none {ctx : Ctx} (hcase : ctx.noCase = false) :
    wordTest ctx none = isWordChar := by
  funext c
  rw [wordTest, hcase, Option.isSome_none, Bool.and_false, Bool.not_false, Bool.true_and]
  rfl

theorem takes_wordChar (env : Env) (n : Nat) {ctx : Ctx} (F : Option Failure)
    (hctx : ctx.skipping = false) :
    Takes F (parse env (n + 2) (Notation.orElse Notation.alnum '_') ctx) (wordTest ctx F) := by
  have halnum := takes_cls env n F (.inl hctx) .alnum
  have hline := takes_lit env n F (.inl hctx) '_'
  have hstep : parse env (n + 2) (Notation.orElse Notation.alnum '_') ctx =
      Node.alt ctx Notation.alnum.ty (Notation.lit '_').ty (parse env (n + 1) Notation.alnum ctx)
        (parse env (n + 1) (Notation.lit '_') ctx) := by
    funext st
    exact parse_succ ..
  rw [hstep]
  exact halnum.alt hline

/-- A word is a letter and what it goes on with. There is none where no letter stands, and none
    while a failure is pending. -/
theorem wordBody_meets {ctx : Ctx} {Q : Post} (hctx : ctx.skipping = false) {st : State}
    (hin : st.cursor.In env.source)
    (hit : ∀ a r v, st.cursor.rest = a :: r → a.isAlpha = true →
      Q.hit v (st.moveTo ((st.cursor.past [a] r).across (wordTest ctx st.failure))))
    (miss : st.pending ctx = true ∨ Avoids Char.isAlpha st.cursor.rest → Q.miss st) :
    (parse env (n + 4) wordBody ctx st).Meets Q := by
  have halpha := takes_alpha env (n + 2) st.failure hctx
  have hword := takes_wordChar env n st.failure hctx
  rw [parse_succ]
  change (Node.seqLoop (parse env (n + 3) · ctx) st.cursor
    [Notation.alpha, .kleene (Notation.orElse Notation.alnum '_')] [] st).Meets Q
  -- either there is a letter, and the loop goes over the rest of the word, or nothing happens
  by_cases hrest : Avoids Char.isAlpha st.cursor.rest
  · rw [Node.seqLoop, halpha.miss st rfl hrest]
    exact miss (.inr hrest)
  · obtain ⟨a, r, hr, ha⟩ : ∃ a r, st.cursor.rest = a :: r ∧ a.isAlpha = true := by
      cases hr : st.cursor.rest with
      | nil => exact absurd (hr ▸ avoids_nil) hrest
      | cons a r =>
        rw [hr, avoids_cons, Bool.not_eq_false] at hrest
        exact ⟨a, r, rfl, hrest⟩
    obtain ⟨v, hv⟩ := halpha.hit st a r rfl hr ha
    have hrounds := byteLength_lt_rounds (st.moveTo (st.cursor.past [a] r)) (hin.past hr)
    obtain ⟨vs, hvs⟩ := hword.repeatLoop (st.moveTo (st.cursor.past [a] r)) hrounds []
    rw [Node.seqLoop, hv, Outcome.cases_matched, Node.seqLoop, parse_succ, Node.step, Node.times,
      Outcome.meets_cases, Node.meets_endRepeat, hvs, settles_ok]
    split
    · rename_i hpending
      exact miss (.inl (hpending.resolve_left (Nat.not_lt_zero _)))
    · exact hit a r _ hr ha

/-- A name is a letter and all the letters, digits and underscores after it. -/
theorem identifier_meets {varTy : Option Ty} {Q : Post} (hn : Enough Q.halt n 6) {st : State}
    (hin : st.cursor.In env.source) (hfail : st.failure = none)
    (hit : ∀ a u r, (st.cursor.across isSpace).rest = a :: u ++ r → a.isAlpha = true →
      (∀ d ∈ u, isWordChar d = true) → Avoids isWordChar r →
      Q.hit (.text (String.ofList (a :: u))) (st.moveTo ((st.cursor.across isSpace).past (a :: u) r)))
    (miss : Avoids Char.isAlpha (st.cursor.across isSpace).rest → Q.miss st) :
    (parse env n Notation.identifier (scene varTy) st).Meets Q := by
  refine parse_meets_of_enough hn fun n => ?_
  change (parse env (n + 6) (.lexeme (.raw wordBody)) (scene varTy) st).Meets Q
  rw [parse_succ, Node.step, Node.meets_lexeme]
  refine (skipOver_space _ (.inl (by omega)) hin).mono (fun st1 h => ?_) fun _ h => h
  subst h
  rw [parse_succ, Node.step, Node.meets_raw, skipOver_idle (.inl rfl), settles_ok]
  have hnot (ctx : Ctx) : ¬ (st.moveTo (st.cursor.across isSpace)).pending ctx = true := by
    simp [State.pending, hfail]
  refine wordBody_meets rfl hin.across (fun a r v hrest ha => ?_) fun h =>
    miss (h.resolve_left (hnot _))
  rw [State.moveTo_failure, hfail, wordTest_none rfl]
  have hword : (st.cursor.across isSpace).rest = a :: r.takeWhile isWordChar ++
      r.dropWhile isWordChar := by
    rw [List.cons_append, List.takeWhile_append_dropWhile]
    exact hrest
  have hover : ((st.cursor.across isSpace).past [a] r).across isWordChar =
      (st.cursor.across isSpace).past (a :: r.takeWhile isWordChar) (r.dropWhile isWordChar) := by
    rw [Cursor.across, Cursor.past_past]
    rfl
  have htaken : (takeBytes? (st.cursor.across isSpace).rest
      (byteLength (a :: r.takeWhile isWordChar))).getD [] = a :: r.takeWhile isWordChar := by
    rw [hword, takeBytes?_append]
    rfl
  have := hit a _ _ hword ha (List.all_eq_true.mp List.all_takeWhile)
    (avoids_dropWhile isWordChar r)
  simpa only [State.moveTo_cursor, State.moveTo_moveTo, State.moveTo_offset, hover,
    Cursor.past_offset, Nat.add_sub_cancel_left, htaken] using this

-- ============================================================================
-- Parsers that yield numbers
-- ============================================================================

/-- A parser that was run in `st` refused and put back what rules look at. `soft` is asked when no
    failure is on record, and `hard` when there is one. -/
structure Refused (st : State) (soft hard : Prop) (st' : State) : Prop where
  cursor : st'.cursor = st.cursor
  ruleVar : st'.ruleVar = st.ruleVar
  plain : st'.failure = none → soft
  recorded : st'.failure ≠ none → hard

theorem Refused.of_plain {st : State} {soft hard : Prop} (hfail : st.failure = none)
    (h : soft) : Refused st soft hard st :=
  ⟨rfl, rfl, fun _ => h, fun hne => absurd hfail hne⟩

/-- From the cursor `c` the parser yields a number and goes to a place as in `K`, and leaves the
    rule variable alone; or else it refuses. -/
def Yields (H : Halt → Prop) (p : Step) (c : Cursor) (K : Float → Cursor → Prop)
    (soft hard : Prop) : Prop :=
  ∀ st, st.cursor = c → st.failure = none → (p st).Meets
    ⟨fun v st' => st'.failure = none ∧ st'.ruleVar = st.ruleVar ∧
        ∃ x, v = .double x ∧ K x st'.cursor,
      Refused st soft hard, H⟩

section Yields

variable {varTy : Option Ty} {c : Cursor} {K : Float → Cursor → Prop} {soft hard : Prop}

theorem Yields.mono {p : Step} {K' : Float → Cursor → Prop} {soft' hard' : Prop}
    (h : Yields H p c K soft hard) (hK : ∀ x c', K x c' → K' x c') (hsoft : soft → soft')
    (hhard : hard → hard') : Yields H p c K' soft' hard' := fun st hc hfail =>
  (h st hc hfail).mono (fun _ _ ⟨hf, hv, x, he, hx⟩ => ⟨hf, hv, x, he, hK x _ hx⟩)
    (fun _ ⟨hc, hv, hs, hh⟩ => ⟨hc, hv, fun h => hsoft (hs h), fun h => hhard (hh h)⟩) fun _ h => h

theorem double_yields (hn : Enough H n 2) (hin : c.In env.source)
    (hit : ∀ u r x, (c.across isSpace).rest = u ++ r →
      Real.scan (c.across isSpace).rest = some u.length → Real.IsNumeral u →
      Real.read? u = some x → K x.toDouble ((c.across isSpace).past u r))
    (miss : (∀ k, Real.scan (c.across isSpace).rest = some k →
      Real.read? ((c.across isSpace).rest.take k) = none) → soft) :
    Yields H (parse env n Notation.double (scene varTy)) c K soft hard := by
  rintro st rfl hfail
  refine terminal_meets hn hin (fun k v hscan => ?_) fun hscan => .of_plain hfail (miss ?_)
  · simp only [Terminal.scan, Terminal.scan.scanReal, Option.bind_eq_bind,
      Option.bind_eq_some_iff] at hscan
    obtain ⟨l, hl, x, hx, he⟩ := hscan
    cases he
    obtain ⟨hnarrow, hnum⟩ := Real.isNumeral_take hl
    have hlen : ((st.cursor.across isSpace).rest.take k).length = k := by
      rw [List.length_take, Nat.min_eq_left hnarrow.1]
    refine ⟨_, _, (List.take_append_drop k _).symm, hnarrow.byteLength_take, hfail, rfl, _, rfl, ?_⟩
    exact hit _ _ x (List.take_append_drop k _).symm (by rw [hlen]; exact hl) hnum hx
  · intro k hk
    refine Option.eq_none_iff_forall_ne_some.mpr ?_
    simpa [Terminal.scan, Terminal.scan.scanReal, hk] using hscan

/-- A refusal at a commit point is never a plain one. -/
theorem expect_yields {g : Grammar} (hn : Enough H n 2) (hin : c.In env.source)
    (h : ∀ m, n = m + 1 → Yields H (parse env m g (scene varTy)) c K hard hard) :
    Yields H (parse env n (.expect g) (scene varTy)) c K False hard := by
  rintro st rfl hfail
  refine expect_meets hn fun m hm _ => (h m hm st rfl hfail).mono (fun _ _ h => h) ?_ fun _ h => h
  rintro st' ⟨hcursor, hvar, hsoft, hhard⟩
  refine ⟨by rwa [hcursor], fun st'' hcursor' hvar' hne => ?_⟩
  refine ⟨hcursor'.trans hcursor, hvar'.trans hvar, fun hnone => absurd hnone hne, fun _ => ?_⟩
  by_cases hnone : st'.failure = none
  · exact hsoft hnone
  · exact hhard hnone

/-- An operator, and an operand that has to be there. -/
theorem operand_yields {op : Char} {r : Rule} (hty : r.ty = .double) (hn : Enough H n 3)
    (hin : c.In env.source)
    (hit : ∀ m rest, n = m + 2 → (c.across isSpace).rest = op :: rest →
      Yields H (parse env m (Notation.call r) (scene varTy)) ((c.across isSpace).past [op] rest) K
        hard hard)
    (miss : Avoids (· == op) (c.across isSpace).rest → soft) :
    Yields H (parse env n (Notation.lit op >>> Notation.expect (Notation.call r)) (scene varTy)) c K
      soft hard := by
  rintro st rfl hfail
  refine parse_meets hn fun m hm (hk : Enough H m 2) => ?_
  change (Node.seqLoop (parse env m · (scene varTy)) st.cursor
    [Notation.lit op, .expect (Notation.call r)] [] st).Meets _
  rw [Node.meets_seqLoop_cons]
  refine lit_meets hk hin (fun rest hrest => ?_) fun hrest => ?miss
  case miss => exact .of_plain hfail (miss hrest)
  dsimp only
  rw [Node.meets_seqLoop_cons]
  have hoperand := expect_yields hk (hin.across.past hrest)
    fun l hl => hit l rest (by rw [hm, hl]) hrest
  refine (hoperand (st.moveTo ((st.cursor.across isSpace).past [op] rest)) rfl hfail).mono
    ?_ ?_ fun _ h => h
  · rintro v st' ⟨hfail', hvar, x, rfl, hK⟩
    refine ⟨hfail', hvar, x, ?_, hK⟩
    have hpresent : (Grammar.expect (Notation.call r)).ty.present = true := by
      change r.ty.present = true
      rw [hty]
      rfl
    simp only [Value.slotsPush, hpresent]
    rfl
  · rintro st' ⟨-, hvar, hsoft, hhard⟩
    exact ⟨rfl, hvar, fun hnone => (hsoft hnone).elim, hhard⟩

/-- An expression in brackets. -/
theorem bracketed_yields (hn : Enough H n 4) (hin : c.In env.source)
    (hit : ∀ m rest, n = m + 2 → (c.across isSpace).rest = '(' :: rest →
      Yields H (parse env m (Notation.call expressionRule) (scene varTy))
        ((c.across isSpace).past ['('] rest)
        (fun x c' => c'.In env.source ∧
          (∀ rest', (c'.across isSpace).rest = ')' :: rest' →
            K x ((c'.across isSpace).past [')'] rest')) ∧
          (Avoids (· == ')') (c'.across isSpace).rest → hard)) hard hard)
    (miss : Avoids (· == '(') (c.across isSpace).rest → soft) :
    Yields H (parse env n bracketed (scene varTy)) c K soft hard := by
  rintro st rfl hfail
  refine parse_meets hn fun m hm (hk : Enough H m 3) => ?_
  change (Node.seqLoop (parse env m · (scene varTy)) st.cursor
    [Notation.lit '(', .expect (Notation.call expressionRule), .expect (Notation.lit ')')] []
      st).Meets _
  rw [Node.meets_seqLoop_cons]
  refine lit_meets (hk.mono (by omega)) hin (fun rest hrest => ?_) fun hrest => ?miss
  case miss => exact .of_plain hfail (miss hrest)
  dsimp only
  rw [Node.meets_seqLoop_cons]
  have hinner := expect_yields (hk.mono (by omega)) (hin.across.past hrest)
    fun l hl => hit l rest (by rw [hm, hl]) hrest
  refine (hinner (st.moveTo ((st.cursor.across isSpace).past ['('] rest)) rfl hfail).mono
    ?_ ?_ fun _ h => h
  · rintro v st1 ⟨hfail1, hvar1, x, rfl, hin1, hclose, hopen⟩
    dsimp only
    rw [Node.meets_seqLoop_cons]
    refine expect_meets (hk.mono (by omega)) fun l hl hkl => ?_
    refine lit_meets (n := l) ?_ hin1 (fun rest' hrest' => ?_) fun hrest' => ?_
    · rw [hl] at hk
      exact hk.pred
    · exact ⟨hfail1, hvar1, x, rfl, hclose rest' hrest'⟩
    · exact ⟨hin1, fun st'' _ hvar'' hne => ⟨rfl, hvar''.trans hvar1,
        fun hnone => absurd hnone hne, fun _ => hopen hrest'⟩⟩
  · rintro st' ⟨-, hvar, hsoft, hhard⟩
    exact ⟨rfl, hvar, fun hnone => (hsoft hnone).elim, hhard⟩

end Yields

-- ============================================================================
-- Parsers that update the rule variable
-- ============================================================================

/-- What the rule variable is inside a rule of the calculator. -/
def Holds (st : State) (c : Cursor) (a : Float) : Prop :=
  st.cursor = c ∧ st.ruleVar = .double a ∧ st.failure = none

/-- From the cursor `c`, with `a` in the rule variable, the parser matches with a number in the
    variable and a place as in `K`; or else it refuses. -/
def Updates (H : Halt → Prop) (p : Step) (c : Cursor) (a : Float) (K : Float → Cursor → Prop)
    (soft hard : Prop) : Prop :=
  ∀ st, Holds st c a → (p st).Meets
    ⟨fun _ st' => ∃ x c', Holds st' c' x ∧ K x c', Refused st soft hard, H⟩

/-- The context inside a rule. -/
abbrev inside : Ctx := scene (some .double)

section Updates

variable {c : Cursor} {a : Float} {K : Float → Cursor → Prop} {soft hard : Prop}

theorem perform_combine (f : Float → Float → Float) (span : Span) (x : Float) {st : State}
    (hvar : st.ruleVar = .double a) :
    (Node.perform env inside (combine f) span inside.varTy (.double x) st).1.passed = true ∧
      (Node.perform env inside (combine f) span inside.varTy (.double x) st).2.ruleVar =
        .double (f a x) := by
  simp [Node.perform, scene, combine, update, Effect.ruleVarOf?, hvar]

/-- An action that brings the variable up to date with the number that its subject yields. -/
theorem combine_updates {f : Float → Float → Float} {g : Grammar} (hn : Enough H n 2)
    (hin : c.In env.source)
    (h : ∀ m, n = m + 1 → Yields H (parse env m g inside) (c.across isSpace)
      (fun x c' => K (f a x) c') soft hard) :
    Updates H (parse env n (Notation.act (combine f) g) inside) c a K soft hard := by
  rintro st ⟨rfl, hvar, hfail⟩
  refine parse_meets hn fun m hm (hk : Enough H m 1) => ?_
  change (Node.action env (parse env m) inside (combine f) (parse env m g inside) st).Meets _
  rw [Node.meets_action]
  refine (skipOver_space _ hk hin).mono (fun st1 h1 => ?_) fun _ h => h
  subst h1
  refine (h m hm (st.moveTo (st.cursor.across isSpace)) rfl hfail).mono ?_ ?_ fun _ h => h
  · rintro v st2 ⟨hfail2, hvar2, x, rfl, hK⟩
    have hmarked : (st2.mark (.acted ⟨(st.cursor.across isSpace).offset, st2.offset⟩)).ruleVar =
        .double a := hvar2.trans hvar
    obtain ⟨hpassed, hnew⟩ := perform_combine f
      ⟨(st.cursor.across isSpace).offset, st2.offset⟩ x hmarked
    rw [State.moveTo_offset]
    dsimp only
    rw [if_pos hpassed]
    exact ⟨_, _, ⟨rfl, hnew, by simpa using hfail2⟩, by simpa using hK⟩
  · rintro st2 ⟨-, hvar2, hsoft, hhard⟩
    exact ⟨rfl, hvar2, hsoft, hhard⟩

theorem Updates.mono {p : Step} {soft' hard' : Prop} {K' : Float → Cursor → Prop}
    (h : Updates H p c a K soft hard) (hK : ∀ x c', K x c' → K' x c') (hsoft : soft → soft')
    (hhard : hard → hard') : Updates H p c a K' soft' hard' := fun st hst =>
  (h st hst).mono (fun _ _ ⟨x, c', hst', hx⟩ => ⟨x, c', hst', hK x c' hx⟩)
    (fun _ ⟨hc, hv, hs, hh⟩ => ⟨hc, hv, fun h => hsoft (hs h), fun h => hhard (hh h)⟩) fun _ h => h

theorem perform_resolve {constants : Symbols Float} {span : Span} {name : String} {x : Float}
    {st : State} (hvar : st.ruleVar = .double a) (h : constants.find? name = some x) :
    (Node.perform env inside (resolve constants) span inside.varTy (.text name) st).1.passed =
        true ∧
      (Node.perform env inside (resolve constants) span inside.varTy (.text name) st).2.ruleVar =
        .double x := by
  simp [Node.perform, scene, resolve, h, update, Effect.ruleVarOf?, hvar]

theorem perform_resolve_veto {constants : Symbols Float} {span : Span} {name : String} {st : State}
    (h : constants.find? name = none) :
    (Node.perform env inside (resolve constants) span inside.varTy (.text name) st).1.passed =
        false ∧
      (Node.perform env inside (resolve constants) span inside.varTy (.text name) st).2.ruleVar =
        st.ruleVar := by
  simp [Node.perform, scene, resolve, h, Effect.fail]

/-- A name stands for its number in the table, and is refused without one. -/
theorem resolve_updates {constants : Symbols Float} (hn : Enough H n 7) (hin : c.In env.source)
    (hit : ∀ s rest x, (c.across isSpace).rest = s ++ rest → IsName s → Avoids isWordChar rest →
      constants.find? (String.ofList s) = some x → K x ((c.across isSpace).past s rest))
    (unbound : ∀ s rest, (c.across isSpace).rest = s ++ rest → IsName s → Avoids isWordChar rest →
      constants.find? (String.ofList s) = none → soft)
    (miss : Avoids Char.isAlpha (c.across isSpace).rest → soft) :
    Updates H (parse env n (Notation.act (resolve constants) Notation.identifier) inside) c a K
      soft hard := by
  rintro st ⟨rfl, hvar, hfail⟩
  refine parse_meets hn fun m hm (hk : Enough H m 6) => ?_
  change (Node.action env (parse env m) inside (resolve constants)
    (parse env m Notation.identifier inside) st).Meets _
  rw [Node.meets_action]
  refine (skipOver_space _ (hk.mono (by omega)) hin).mono (fun st1 h1 => ?_) fun _ h => h
  subst h1
  refine identifier_meets hk hin.across hfail (fun b u rest hrest hb hu hword => ?_) fun hrest => ?_
  · rw [State.moveTo_cursor, Cursor.across_across] at hrest ⊢
    dsimp only
    have hname : IsName (b :: u) := ⟨b, u, rfl, hb, hu⟩
    cases hfind : constants.find? (String.ofList (b :: u)) with
    | some x =>
      split
      · exact ⟨x, _, ⟨rfl, (perform_resolve hvar hfind).2, by simpa using hfail⟩,
          by simpa using hit _ rest x hrest hname hword hfind⟩
      · rename_i hveto
        exact absurd (perform_resolve hvar hfind).1 hveto
    | none =>
      split
      · rename_i hpassed
        rw [(perform_resolve_veto hfind).1] at hpassed
        cases hpassed
      · exact ⟨rfl, (perform_resolve_veto hfind).2, fun _ => unbound _ rest hrest hname hword hfind,
          fun hne => absurd (by simpa using hfail) hne⟩
  · rw [State.moveTo_cursor, Cursor.across_across] at hrest
    exact ⟨rfl, rfl, fun _ => miss hrest, fun hne => absurd hfail hne⟩

/-- The first of two updates that is not refused; none after a recorded failure. -/
theorem alt_updates {g g' : Grammar} (hn : Enough H n 1)
    (h : ∀ m, n = m + 1 → Updates H (parse env m g inside) c a K
      (Updates H (parse env m g' inside) c a K soft hard) hard) :
    Updates H (parse env n (.alt g g') inside) c a K soft hard := by
  intro st hst
  refine parse_meets hn fun m hm _ => ?_
  rw [Node.step, Node.meets_alt]
  refine (h m hm st hst).mono (fun _ _ h => h) ?_ fun _ h => h
  rintro st1 ⟨hcursor, hvar, hsoft, hhard⟩
  obtain ⟨hc, hv, -⟩ := hst
  dsimp only
  split
  · rename_i hpend
    have hne : st1.failure ≠ none := by
      simpa [State.pending, scene, Option.isSome_iff_ne_none] using hpend
    exact ⟨hcursor, hvar, fun hnone => absurd hnone hne, hhard⟩
  · rename_i hpend
    have hnone : st1.failure = none := by simpa [State.pending, scene] using hpend
    refine (hsoft hnone st1 ⟨hcursor.trans hc, hvar.trans hv, hnone⟩).mono (fun _ _ h => h) ?_
      fun _ h => h
    rintro st2 ⟨hcursor2, hvar2, hsoft2, hhard2⟩
    exact ⟨hcursor2.trans hcursor, hvar2.trans hvar, hsoft2, hhard2⟩

end Updates

-- ============================================================================
-- Bodies of rules
-- ============================================================================

/-- What a body leaves behind: a number in the rule variable. A body that refuses need not put
    anything back, as the call of the rule does that. -/
def Ends (H : Halt → Prop) (p : Step) (c : Cursor) (a : Float) (K : Float → Cursor → Prop)
    (soft hard : Prop) : Prop :=
  ∀ st, Holds st c a → (p st).Meets
    ⟨fun _ st' => ∃ x c', Holds st' c' x ∧ K x c',
      fun st' => (st'.failure = none → soft) ∧ (st'.failure ≠ none → hard), H⟩

section Bodies

variable {c : Cursor} {a : Float} {K : Float → Cursor → Prop} {soft hard : Prop}

/-- The branches of a factor one after the other, each in case that those before it refuse. -/
def Branches (H : Halt → Prop) (env : Env) (constants : Symbols Float) (m : Nat) (c : Cursor)
    (a : Float) (K : Float → Cursor → Prop) (soft hard : Prop) : Prop :=
  Updates H (parse env m (Notation.act (resolve constants) Notation.identifier) inside) c a K
    (Updates H (parse env m (Notation.act assign Notation.double) inside) c a K
      (Updates H (parse env (m + 1) (Notation.act assign bracketed) inside) c a K
        (Updates H (parse env (m + 2) (applied '-' factorRule fun _ v => -v) inside) c a K
          (Updates H (parse env (m + 3) (applied '+' factorRule fun _ v => v) inside) c a K
            soft hard) hard) hard) hard) hard

theorem factorBody_ends {constants : Symbols Float} (hn : Enough H n 5)
    (h : ∀ m, n = m + 5 → Branches H env constants m c a K soft hard) :
    Ends H (parse env n (factorBody constants) inside) c a K soft hard := by
  intro st hst
  refine parse_meets hn fun m1 h1 (hk1 : Enough H m1 4) => ?_
  have hbranches : Updates H (parse env m1 (.alt (.alt (.alt (.alt
      (Notation.act (resolve constants) Notation.identifier) (Notation.act assign Notation.double))
      (Notation.act assign bracketed)) (applied '-' factorRule fun _ v => -v))
      (applied '+' factorRule fun _ v => v)) inside) c a K soft hard := by
    refine alt_updates (hk1.mono (by omega)) fun m2 h2 => ?_
    refine alt_updates (hn.below (by omega)) fun m3 h3 => ?_
    refine alt_updates (hn.below (by omega)) fun m4 h4 => ?_
    refine alt_updates (hn.below (by omega)) fun m5 h5 => ?_
    obtain rfl : m4 = m5 + 1 := h5
    obtain rfl : m3 = m5 + 2 := h4
    obtain rfl : m2 = m5 + 3 := h3
    exact h m5 (by omega)
  change (Node.mapValue _ (parse env m1 _ inside) st).Meets _
  rw [Node.meets_mapValue]
  exact (hbranches st hst).mono (fun _ _ h => h) (fun _ h => ⟨h.plain, h.recorded⟩) fun _ h => h

/-- A rule of the calculator: it has a variable for a number, which its body fills by actions. -/
structure Fills (env : Env) (r : Rule) (body : Grammar) : Prop where
  found : env.rules r.name = some ⟨body, false⟩
  ty : r.ty = .double
  forced : r.forced = false
  onSuccess : r.onSuccess = none
  actions : body.hasAction = true

/-- A call yields what its body leaves in the variable, which starts with zero, and puts the
    variable of the caller back. -/
theorem call_yields {r : Rule} {body : Grammar} {varTy : Option Ty} (hr : Fills env r body)
    (hn : Enough H n 2) (hin : c.In env.source)
    (h : ∀ m, n = m + 1 → Ends H (parse env m body inside) (c.across isSpace) 0 K soft hard) :
    Yields H (parse env n (Notation.call r) (scene varTy)) c K soft hard := by
  rintro st rfl hfail
  refine parse_meets hn fun m hm (hk : Enough H m 1) => ?_
  change (Node.rule env (parse env m) r (scene varTy) st).Meets _
  have hfound : ((scene varTy).chain.injected? r.name).or (env.rules r.name) =
      some ⟨body, false⟩ := hr.found
  rw [Node.rule, hfound]
  dsimp only
  rw [Node.meets_call]
  refine (skipOver_space none hk hin).mono (fun st1 h1 => ?_) fun _ h => h
  subst h1
  have hctx : { (scene varTy).outsideRules with varTy := some r.ty } = inside := by
    rw [hr.ty]
    rfl
  dsimp only
  rw [hctx]
  refine Outcome.Meets.mono (h m hm _ ⟨rfl, congrArg Value.default hr.ty, hfail⟩) ?_ ?_ fun _ h => h
  · rintro v st2 ⟨x, c', ⟨hc2, hv2, hfail2⟩, hK⟩
    dsimp only
    rw [Node.matchRule_of_none hr.onSuccess]
    have hfill : Node.fillRule r ⟨body, false⟩ st2.ruleVar v = st2.ruleVar := by
      simp [Node.fillRule, hr.forced, hr.actions]
    refine ⟨hfail2, rfl, x, hfill.trans hv2, ?_⟩
    rw [State.mark_cursor, hc2]
    exact hK
  · rintro st2 ⟨hsoft, hhard⟩
    refine ⟨rfl, rfl, fun h => hsoft ?_, fun h => hhard ?_⟩
    · simpa using h
    · simpa using h

end Bodies

-- ============================================================================
-- Chains of operators
-- ============================================================================

/-- An operand, then operators of one rank with an operand each. -/
def chained (operand : Rule) (op : Char) (f : Float → Float → Float) (op' : Char)
    (f' : Float → Float → Float) : Grammar :=
  Notation.discard
    (Notation.act assign (Notation.call operand) >>>
      Notation.kleene (Notation.orElse (applied op operand f) (applied op' operand f')))

/-- From the cursor `c`, with `a` in the rule variable, at most `N` rounds of the parser end with a
    number in the variable and a place as in `K`, or with a recorded failure. -/
def Rounds (H : Halt → Prop) (p : Step) (N : Nat) (c : Cursor) (a : Float)
    (K : Float → Cursor → Prop) (hard : Prop) : Prop :=
  ∀ vs st, Holds st c a → Settles (Node.repeatLoop p N vs st)
    (fun r => (r.2.failure = none → ∃ x c', Holds r.2 c' x ∧ K x c') ∧
      (r.2.failure ≠ none → hard)) H

section Chains

variable {c : Cursor} {a : Float} {K : Float → Cursor → Prop} {soft hard : Prop}

/-- One round, and those after it if it moved. -/
theorem rounds_succ {p : Step} {N : Nat}
    (h : Updates H p c a (fun x c' => (c'.offset = c.offset → K x c') ∧
      (c'.offset ≠ c.offset → Rounds H p N c' x K hard)) (K a c) hard) :
    Rounds H p (N + 1) c a K hard := by
  intro vs st hst
  have hp := h st hst
  rw [Node.repeatLoop]
  cases hres : p st with
  | matched v st' =>
    rw [hres] at hp
    obtain ⟨x, c', hst', hsame, hmoved⟩ := hp
    dsimp only
    have hoff : st'.offset = st.offset ↔ c'.offset = c.offset := by
      rw [← State.offset_def, ← State.offset_def, hst'.1, hst.1]
    by_cases hmove : st'.offset = st.offset
    · rw [if_pos hmove]
      exact ⟨fun _ => ⟨x, c', hst', hsame (hoff.mp hmove)⟩, fun hne => absurd hst'.2.2 hne⟩
    · rw [if_neg hmove]
      exact hmoved (fun h => hmove (hoff.mpr h)) (v :: vs) st' hst'
  | failed st' =>
    rw [hres] at hp
    obtain ⟨hcursor, hvar, hsoft, hhard⟩ := hp
    refine ⟨fun hnone => ?_, hhard⟩
    exact ⟨a, c, ⟨hcursor.trans hst.1, hvar.trans hst.2.1, hnone⟩, hsoft hnone⟩
  | stopped hlt =>
    rw [hres] at hp
    exact hp

/-- The body of a chain: the first operand, then rounds of operators with theirs. -/
theorem chained_ends {operand : Rule} {op op' : Char} {f f' : Float → Float → Float}
    (hn : Enough H n 3)
    (h : ∀ m, n = m + 3 →
      Updates H (parse env (m + 1) (Notation.act assign (Notation.call operand)) inside) c a
        (fun x c' => Rounds H
          (parse env m (Notation.orElse (applied op operand f) (applied op' operand f')) inside)
          (byteLength env.source + 1 - c'.offset) c' x K hard) soft hard) :
    Ends H (parse env n (chained operand op f op' f') inside) c a K soft hard := by
  intro st hst
  refine parse_meets hn fun m1 h1 (hk1 : Enough H m1 2) => ?_
  change (Node.mapValue _ (parse env m1 (.seq [Notation.act assign (Notation.call operand),
    .kleene (Notation.orElse (applied op operand f) (applied op' operand f'))]) inside) st).Meets _
  rw [Node.meets_mapValue]
  refine parse_meets hk1 fun m2 h2 (hk2 : Enough H m2 1) => ?_
  rw [Node.step, Node.meets_seqLoop_cons]
  cases m2 with
  | zero => exact hk2.halts _
  | succ m =>
    refine (h m (by omega) st hst).mono ?_ ?_ fun _ h => h
    · rintro v st1 ⟨x, c1, hst1, hrounds⟩
      dsimp only
      rw [Node.meets_seqLoop_cons, parse_succ, Node.step, Node.times, Node.meets_endRepeat]
      have hloop := hrounds [] st1 hst1
      rw [← hst1.1] at hloop
      rw [Node.rounds, env.length_eq]
      refine hloop.mono ?_ fun _ h => h
      rintro ⟨vs, st2⟩ ⟨hfree, hhard⟩
      by_cases hnone : st2.failure = none
      · rw [if_neg (by simp [State.pending, hnone])]
        exact hfree hnone
      · have hpend : st2.pending inside = true := by
          simpa [State.pending, scene, Option.isSome_iff_ne_none] using hnone
        rw [if_pos (.inr hpend)]
        exact ⟨fun h => absurd h hnone, hhard⟩
    · rintro st1 ⟨-, -, hsoft, hhard⟩
      exact ⟨hsoft, hhard⟩

end Chains

-- ============================================================================
-- The rules
-- ============================================================================

section Rules

variable (k : Calculator) (source : Text)

theorem expression_fills :
    Fills (k.program.env source) expressionRule (chained termRule '+' (· + ·) '-' (· - ·)) :=
  ⟨rfl, rfl, rfl, rfl, rfl⟩

theorem term_fills :
    Fills (k.program.env source) termRule (chained factorRule '*' (· * ·) '/' (· / ·)) :=
  ⟨rfl, rfl, rfl, rfl, rfl⟩

theorem factor_fills : Fills (k.program.env source) factorRule (factorBody k.constants) :=
  ⟨rfl, rfl, rfl, rfl, rfl⟩

end Rules

-- ============================================================================
-- Values of runs
-- ============================================================================

theorem merge_double (x : Float) :
    Value.merge .double .double (.double 0) (.double x) = .double x := by
  have hstrategy : Ty.strategy .double .double = .convert := rfl
  rw [Value.merge, Value.merge?]
  split
  case h_2 =>
    simp [Value.convert?]
  all_goals
    rename_i h
    rw [hstrategy] at h
    cases h

theorem valueOf_eq_ok {r : Program.Run} {v : Float} :
    valueOf r = .ok v ↔ r.result.failure = none ∧ r.result.matched = true ∧
      r.result.isFull = true ∧ r.slot = .double v := by
  unfold valueOf
  split
  · rename_i hfail
    simp [hfail]
  · rename_i hfail
    cases hmatched : r.result.matched with
    | false => simp [hfail]
    | true =>
      cases hfull : r.result.isFull with
      | false => simp [hfail]
      | true =>
        simp only [hfail, Bool.not_true, Bool.false_eq_true, if_false, true_and]
        cases r.slot <;> simp

end Calculator

end Peg
