/-
  Peg.Proofs.Postcondition

  Postconditions of outcomes, and how each kind of node passes them on. A
  postcondition says what is asked of the state after a match, of the state
  after a failure, and of a halt. For every kind of node one lemma reduces a
  postcondition of the node to postconditions of its parts, so that a property
  of whole parses needs one case for each kind of node and never looks inside a
  node again. Loops come with an invariant.
-/
import Peg.Entry

namespace Peg

/-- What is asked of an outcome. -/
structure Post where
  hit : Value → State → Prop
  miss : State → Prop
  halt : Halt → Prop

/-- The halt for a rule that has no definition. -/
def Halt.Undefined (h : Halt) : Prop := ∃ name, h.why = .undefinedRule name

theorem Halt.not_undefined_exhausted (st : State) : ¬ Halt.Undefined ⟨.exhausted, st⟩ :=
  fun ⟨_, h⟩ => nomatch h

theorem Halt.not_undefined_offBoundary (n : Nat) (st : State) :
    ¬ Halt.Undefined ⟨.offBoundary n, st⟩ := fun ⟨_, h⟩ => nomatch h

namespace Outcome

/-- The outcome is as asked. -/
def Meets (Q : Post) : Outcome → Prop
  | .matched v st => Q.hit v st
  | .failed st => Q.miss st
  | .stopped h => Q.halt h

variable {Q R : Post}

@[simp] theorem meets_matched {v : Value} {st : State} :
    (matched v st).Meets Q ↔ Q.hit v st := Iff.rfl

@[simp] theorem meets_failed {st : State} : (failed st).Meets Q ↔ Q.miss st := Iff.rfl

@[simp] theorem meets_stopped {h : Halt} : (stopped h).Meets Q ↔ Q.halt h := Iff.rfl

theorem Meets.mono {o : Outcome} (h : o.Meets Q) (hit : ∀ v st, Q.hit v st → R.hit v st)
    (miss : ∀ st, Q.miss st → R.miss st) (halt : ∀ h, Q.halt h → R.halt h) : o.Meets R := by
  cases o with
  | matched v st => exact hit v st h
  | failed st => exact miss st h
  | stopped hlt => exact halt hlt h

theorem Meets.and {o : Outcome} (h : o.Meets Q) (h' : o.Meets R) :
    o.Meets ⟨fun v st => Q.hit v st ∧ R.hit v st, fun st => Q.miss st ∧ R.miss st,
      fun hlt => Q.halt hlt ∧ R.halt hlt⟩ := by
  cases o <;> exact ⟨h, h'⟩

/-- Every outcome is as asked when nothing is asked. -/
theorem meets_any (o : Outcome) :
    o.Meets ⟨fun _ _ => True, fun _ => True, fun _ => True⟩ := by
  cases o <;> trivial

@[simp] theorem meets_cases {o : Outcome} {hit : Value → State → Outcome}
    {miss : State → Outcome} :
    (o.cases hit miss).Meets Q ↔
      o.Meets ⟨fun v st => (hit v st).Meets Q, fun st => (miss st).Meets Q, Q.halt⟩ := by
  cases o <;> rfl

end Outcome

/-- What is asked of a computation that ends well or halts. -/
def Settles {α : Type} (o : Except Halt α) (done : α → Prop) (halt : Halt → Prop) : Prop :=
  match o with
  | .ok a => done a
  | .error h => halt h

@[simp] theorem settles_ok {α : Type} {a : α} {done : α → Prop} {halt : Halt → Prop} :
    Settles (.ok a) done halt ↔ done a := Iff.rfl

@[simp] theorem settles_error {α : Type} {h : Halt} {done : α → Prop} {halt : Halt → Prop} :
    Settles (.error h) done halt ↔ halt h := Iff.rfl

theorem Settles.mono {α : Type} {o : Except Halt α} {done done' : α → Prop}
    {halt halt' : Halt → Prop} (h : Settles o done halt) (hd : ∀ a, done a → done' a)
    (hh : ∀ h, halt h → halt' h) : Settles o done' halt' := by
  cases o with
  | ok a => exact hd a h
  | error hlt => exact hh hlt h

namespace Node

variable {env : Env} {rec : Grammar → Ctx → Step} {ctx : Ctx} {p q : Step} {st : State} {Q : Post}

/-! ## Loops

Each loop has an invariant, which may depend on the number of rounds that are
left. It must rule out that no round is left, unless the halt for want of fuel is
allowed. -/

section Loops

variable {halt : Halt → Prop}

theorem skipLoop_settles (I : Nat → State → Prop) {done : State → Prop}
    (spent : ∀ st, I 0 st → halt ⟨.exhausted, st⟩)
    (round : ∀ n st, I (n + 1) st → (p st).Meets
      ⟨fun _ st' => (st'.offset = st.offset → done st') ∧ (st'.offset ≠ st.offset → I n st'),
        done, halt⟩) :
    ∀ n st, I n st → Settles (skipLoop p n st) done halt := by
  intro n
  -- by induction on the rounds that are left; the invariant is at hand before each of them
  induction n with
  | zero => exact spent
  | succ n ih =>
    intro st hI
    have h := round n st hI
    rw [skipLoop]
    cases hp : p st with
    | matched v st' =>
      rw [hp] at h
      by_cases hm : st'.offset = st.offset
      · simpa only [if_pos hm, settles_ok] using h.1 hm
      · simpa only [if_neg hm] using ih st' (h.2 hm)
    | failed st' => rwa [hp] at h
    | stopped hlt => rwa [hp] at h

theorem repeatLoop_settles (I : Nat → List Value → State → Prop) {done : List Value × State → Prop}
    (spent : ∀ vs st, I 0 vs st → halt ⟨.exhausted, st⟩)
    (round : ∀ n vs st, I (n + 1) vs st → (p st).Meets
      ⟨fun v st' => (st'.offset = st.offset → done (v :: vs, st')) ∧
          (st'.offset ≠ st.offset → I n (v :: vs) st'),
        fun st' => done (vs, st'), halt⟩) :
    ∀ n vs st, I n vs st → Settles (repeatLoop p n vs st) done halt := by
  intro n
  induction n with
  | zero => exact spent
  | succ n ih =>
    intro vs st hI
    have h := round n vs st hI
    rw [repeatLoop]
    cases hp : p st with
    | matched v st' =>
      rw [hp] at h
      by_cases hm : st'.offset = st.offset
      · simpa only [if_pos hm, settles_ok] using h.1 hm
      · simpa only [if_neg hm] using ih _ st' (h.2 hm)
    | failed st' => rwa [hp] at h
    | stopped hlt => rwa [hp] at h

theorem repeatUpTo_settles (I : Nat → List Value → State → Prop) {done : List Value × State → Prop}
    (full : ∀ vs st, I 0 vs st → done (vs, st))
    (round : ∀ n vs st, I (n + 1) vs st → (p st).Meets
      ⟨fun v st' => I n (v :: vs) st', fun st' => done (vs, st'), halt⟩) :
    ∀ n vs st, I n vs st → Settles (repeatUpTo p n vs st) done halt := by
  intro n
  induction n with
  | zero => exact full
  | succ n ih =>
    intro vs st hI
    have h := round n vs st hI
    rw [repeatUpTo]
    cases hp : p st with
    | matched v st' =>
      rw [hp] at h
      exact ih _ st' h
    | failed st' => rwa [hp] at h
    | stopped hlt => rwa [hp] at h

theorem listLoop_settles {d : Step} (I : Nat → List Value → State → Prop)
    {done : List Value × State → Prop}
    (spent : ∀ vs st, I 0 vs st → halt ⟨.exhausted, st⟩)
    (round : ∀ n vs st, I (n + 1) vs st → (d st).Meets
      ⟨fun _ st1 => (p st1).Meets
          ⟨fun v st2 => (st2.offset = st.offset → done (v :: vs, st2)) ∧
              (st2.offset ≠ st.offset → I n (v :: vs) st2),
            fun st2 => done (vs, st2.moveTo st.cursor), halt⟩,
        fun st' => done (vs, st'), halt⟩) :
    ∀ n vs st, I n vs st → Settles (listLoop p d n vs st) done halt := by
  intro n
  induction n with
  | zero => exact spent
  | succ n ih =>
    intro vs st hI
    have h := round n vs st hI
    rw [listLoop]
    -- a round is a delimiter and then an element, and ends at the first that does not match
    cases hd : d st with
    | matched v0 st1 =>
      rw [hd, Outcome.meets_matched] at h
      cases hp : p st1 with
      | matched v st2 =>
        simp only [hp, Outcome.meets_matched] at h
        by_cases hm : st2.offset = st.offset
        · simpa only [hp, if_pos hm, settles_ok] using h.1 hm
        · simpa only [hp, if_neg hm] using ih _ st2 (h.2 hm)
      | failed st2 => simpa only [hp, Outcome.meets_failed, settles_ok] using h
      | stopped hlt => simpa only [hp, Outcome.meets_stopped, settles_error] using h
    | failed st1 => rwa [hd] at h
    | stopped hlt => rwa [hd] at h

theorem seekLoop_meets {pending : State → Bool} {start : Cursor} (I : Nat → Text → State → Prop)
    (round : ∀ offset rest st, I offset rest st → (p (st.moveTo ⟨offset, rest⟩)).Meets
      ⟨Q.hit,
        fun st' => (pending st' = true ∨ rest = [] → Q.miss (st'.moveTo start)) ∧
          ∀ c r, pending st' = false → rest = c :: r → I (offset + c.utf8Size) r st',
        Q.halt⟩) :
    ∀ rest offset st, I offset rest st → (seekLoop pending p start offset rest st).Meets Q := by
  intro rest
  -- each round moves over one character of the text that is left
  induction rest with
  | nil =>
    intro offset st hI
    have h := round offset [] st hI
    rw [seekLoop]
    cases hp : p (st.moveTo ⟨offset, []⟩) with
    | matched v st' => rwa [hp] at h
    | failed st' =>
      rw [hp] at h
      simpa using h.1 (.inr rfl)
    | stopped hlt => rwa [hp] at h
  | cons c r ih =>
    intro offset st hI
    have h := round offset (c :: r) st hI
    rw [seekLoop]
    cases hp : p (st.moveTo ⟨offset, c :: r⟩) with
    | matched v st' => rwa [hp] at h
    | failed st' =>
      rw [hp] at h
      cases hpend : pending st' with
      | true => simpa [hpend] using h.1 (.inl hpend)
      | false => simpa [hpend] using ih _ st' (h.2 c r hpend rfl)
    | stopped hlt => rwa [hp] at h

theorem seqLoop_meets {run : Grammar → Step} {start : Cursor}
    (I : List Grammar → List Value → State → Prop)
    (done : ∀ slots st, I [] slots st → Q.hit (Value.slotsFinish slots) st)
    (round : ∀ p ps slots st, I (p :: ps) slots st → (run p st).Meets
      ⟨fun v st' => I ps (Value.slotsPush slots p.ty v) st',
        fun st' => Q.miss (st'.moveTo start), Q.halt⟩) :
    ∀ ps slots st, I ps slots st → (seqLoop run start ps slots st).Meets Q := by
  intro ps
  induction ps with
  | nil => exact done
  | cons p ps ih =>
    intro slots st hI
    rw [seqLoop, Outcome.meets_cases]
    exact (round p ps slots st hI).mono (fun v st' h => ih _ st' h) (fun _ h => h) (fun _ h => h)

end Loops

/-! ## Skipping and terminals -/

/-- The skipper loops from the cursor; without one, or with skipping off, nothing happens. -/
theorem skipOver_settles {done : State → Prop} {halt : Halt → Prop} (idle : done st)
    (run : ∀ s, ctx.skipping = true → ctx.skipper = some s →
      Settles (skipLoop (rec s Ctx.root) (rounds env st) st) done halt) :
    Settles (skipOver env rec ctx st) done halt := by
  unfold skipOver
  split
  · rename_i s hon hs
    exact run s hon hs
  · exact idle

@[simp] theorem meets_afterSkip {o : Except Halt State} {k : Step} :
    (afterSkip o k).Meets Q ↔ Settles o (fun st => (k st).Meets Q) Q.halt := by
  cases o <;> rfl

theorem takeTerminal_meets {t : Terminal} {noCase : Bool} {start : Cursor}
    (miss : Q.miss (st.moveTo start))
    (hit : ∀ n v c, t.scan noCase st.cursor.rest = some (n, v) → st.cursor.advance? n = some c →
      Q.hit v (st.moveTo c))
    (off : ∀ n v, t.scan noCase st.cursor.rest = some (n, v) → st.cursor.advance? n = none →
      Q.halt ⟨.offBoundary (st.offset + n), st⟩) :
    (takeTerminal t noCase start st).Meets Q := by
  unfold takeTerminal
  split
  · exact miss
  · rename_i n v hscan
    split
    · rename_i c hc
      exact hit n v c hscan hc
    · rename_i hnone
      exact off n v hscan hnone

theorem meets_eps {c : Condition} :
    (step env rec (.eps c) ctx st).Meets Q ↔
      if (condition c st).1 then
        Settles (skipOver env rec ctx (condition c st).2) (Q.hit .unused) Q.halt
      else Q.miss (condition c st).2 := by
  simp only [step]
  split <;> simp

/-! ## Operators -/

@[simp] theorem meets_seqLoop_nil {run : Grammar → Step} {start : Cursor} {slots : List Value} :
    (seqLoop run start [] slots st).Meets Q ↔ Q.hit (Value.slotsFinish slots) st := Iff.rfl

@[simp] theorem meets_seqLoop_cons {run : Grammar → Step} {start : Cursor} {g : Grammar}
    {gs : List Grammar} {slots : List Value} :
    (seqLoop run start (g :: gs) slots st).Meets Q ↔ (run g st).Meets
      ⟨fun v st' => (seqLoop run start gs (Value.slotsPush slots g.ty v) st').Meets Q,
        fun st' => Q.miss (st'.moveTo start), Q.halt⟩ :=
  Outcome.meets_cases

@[simp] theorem meets_alt {l r : Ty} :
    (alt ctx l r p q st).Meets Q ↔ (p st).Meets
      ⟨fun v st => Q.hit (Value.alternativeLeft l r v) st,
        fun st => if st.pending ctx then Q.miss st else (q st).Meets
          ⟨fun v st => Q.hit (Value.alternativeRight l r v) st, Q.miss, Q.halt⟩,
        Q.halt⟩ := by
  simp only [alt, Outcome.meets_cases, Outcome.meets_matched]
  cases p st with
  | failed st' =>
    simp only [Outcome.meets_failed]
    split <;> simp
  | _ => rfl

@[simp] theorem meets_diff :
    (diff p q st).Meets Q ↔ (q st).Meets
      ⟨fun _ st' => Q.miss (st'.moveTo st.cursor), fun st' => (p st').Meets Q, Q.halt⟩ :=
  Outcome.meets_cases

@[simp] theorem meets_opt {t : Ty} :
    (opt ctx t p st).Meets Q ↔ (p st).Meets
      ⟨fun v st => Q.hit (Value.optional t v) st,
        fun st => if st.pending ctx then Q.miss st else Q.hit (Value.default (Ty.optional t)) st,
        Q.halt⟩ := by
  simp only [opt, Outcome.meets_cases, Outcome.meets_matched]
  cases p st with
  | failed st' =>
    simp only [Outcome.meets_failed]
    split <;> rfl
  | _ => rfl

@[simp] theorem meets_ahead :
    (ahead true p st).Meets Q ↔ (p st).Meets
      ⟨fun _ st' => Q.hit .unused (st'.moveTo st.cursor), fun st' => Q.miss (st'.moveTo st.cursor),
        Q.halt⟩ :=
  Outcome.meets_cases

@[simp] theorem meets_notAhead :
    (ahead false p st).Meets Q ↔ (p st).Meets
      ⟨fun _ st' => Q.miss (st'.moveTo st.cursor), fun st' => Q.hit .unused (st'.moveTo st.cursor),
        Q.halt⟩ :=
  Outcome.meets_cases

theorem meets_endRepeat {t : Ty} {min : Nat} {start : Cursor}
    {o : Except Halt (List Value × State)} :
    (endRepeat ctx t min start o).Meets Q ↔
      Settles o (fun r => if r.1.length < min ∨ r.2.pending ctx then Q.miss (r.2.moveTo start)
        else Q.hit (Value.collect t r.1.reverse) r.2) Q.halt := by
  cases o with
  | error h => rfl
  | ok r =>
    obtain ⟨vs, st⟩ := r
    simp only [endRepeat, Settles]
    split <;> rfl

@[simp] theorem meets_expect {g : Grammar} :
    (expect env rec ctx g st).Meets Q ↔ (rec g ctx st).Meets
      ⟨Q.hit,
        fun st' => if ctx.tracking then
            Settles (skipOver env rec ctx st') (fun st'' =>
              Q.miss ((st''.record ⟨st''.offset, g.what⟩).moveTo st'.cursor)) Q.halt
          else Q.miss st',
        Q.halt⟩ := by
  simp only [expect, Outcome.meets_cases, Outcome.meets_matched]
  cases rec g ctx st with
  | failed st' =>
    simp only [Outcome.meets_failed]
    split
    · exact meets_afterSkip
    · rfl
  | _ => rfl

/-! ## Actions and directives -/

@[simp] theorem meets_action {f : Action} :
    (action env rec ctx f p st).Meets Q ↔
      Settles (skipOver env rec ctx st) (fun st1 => (p st1).Meets
        ⟨fun v st2 =>
            let r := perform env ctx f ⟨st1.offset, st2.offset⟩ ctx.varTy v
              (st2.mark (.acted ⟨st1.offset, st2.offset⟩))
            if r.1.passed then Q.hit r.1.attr r.2 else Q.miss (r.2.moveTo st.cursor),
          fun st2 => Q.miss (st2.moveTo st.cursor), Q.halt⟩) Q.halt := by
  simp only [action, meets_afterSkip, Outcome.meets_cases, Outcome.meets_failed]
  cases skipOver env rec ctx st with
  | error h => rfl
  | ok st1 =>
    simp only [Settles]
    cases p st1 with
    | matched v st2 =>
      simp only [Outcome.meets_matched]
      split <;> rfl
    | _ => rfl

@[simp] theorem meets_raw :
    (raw env rec ctx p st).Meets Q ↔
      Settles (skipOver env rec ctx st) (fun st1 => (p st1).Meets
        ⟨fun _ st2 => Q.hit (.text (String.ofList
            ((Text.takeBytes? st1.cursor.rest (st2.offset - st1.offset)).getD []))) st2,
          fun st2 => Q.miss (st2.moveTo st.cursor), Q.halt⟩) Q.halt := by
  simp only [raw, meets_afterSkip, Outcome.meets_cases, Outcome.meets_matched,
    Outcome.meets_failed]

@[simp] theorem meets_mapValue {f : Value → Value} :
    (mapValue f p st).Meets Q ↔ (p st).Meets ⟨fun v st => Q.hit (f v) st, Q.miss, Q.halt⟩ :=
  Outcome.meets_cases

@[simp] theorem meets_flag :
    (flag p st).Meets Q ↔ (p st).Meets
      ⟨fun _ st => Q.hit (.bool true) st, fun st => Q.hit (.bool false) st, Q.halt⟩ :=
  Outcome.meets_cases

@[simp] theorem meets_narrow {f : Value → Option Value} :
    (narrow f p st).Meets Q ↔ (p st).Meets
      ⟨fun v st' => (∀ w, f v = some w → Q.hit w st') ∧
          (f v = none → Q.miss (st'.moveTo st.cursor)),
        Q.miss, Q.halt⟩ := by
  simp only [narrow, Outcome.meets_cases]
  cases p st with
  | matched v st' =>
    simp only [Outcome.meets_matched]
    cases f v <;> simp
  | _ => rfl

@[simp] theorem meets_lexeme :
    (lexeme env rec ctx p st).Meets Q ↔
      Settles (skipOver env rec ctx st) (fun st1 => (p st1).Meets
        ⟨Q.hit, fun st2 => Q.miss (st2.moveTo st.cursor), Q.halt⟩) Q.halt := by
  simp only [lexeme, meets_afterSkip, Outcome.meets_cases, Outcome.meets_matched,
    Outcome.meets_failed]

@[simp] theorem meets_mapState {f : State → State} {o : Outcome} :
    (mapState f o).Meets Q ↔
      o.Meets ⟨fun v st => Q.hit v (f st), fun st => Q.miss (f st), Q.halt⟩ := by
  cases o <;> rfl

/-! ## Rules -/

/-- A rule whose body matched goes on in the state that its hook left. -/
theorem matchRule_meets {r : Rule} {d : Definition} {start : Nat} {v : Value} {st2 st3 : State}
    (hst : st3 = (succeed env ctx r ⟨start, st2.offset⟩ (fillRule r d st2.ruleVar v)
      { st2 with ruleVar := st.ruleVar }).2.mark (.left r.name))
    (hit : ∀ w, Q.hit w st3) (miss : Q.miss (st3.moveTo st.cursor)) :
    (matchRule env ctx r d st start v st2).Meets Q := by
  subst hst
  simp only [matchRule]
  -- the hook may have vetoed the match, but it ran either way
  split
  · exact hit _
  · exact miss

/-- Without a hook for matches a rule takes the value at once. -/
theorem matchRule_of_none {r : Rule} {d : Definition} (h : r.onSuccess = none) (st : State)
    (start : Nat) (v : Value) :
    matchRule env ctx r d st start v = fun st2 =>
      .matched (fillRule r d st2.ruleVar v)
        (State.mark { st2 with ruleVar := st.ruleVar } (.left r.name)) := by
  funext st2
  simp only [matchRule, succeed, h]

/-- The hook for matches runs on the value that the rule took, and may veto the match. -/
theorem matchRule_of_some {r : Rule} {d : Definition} {g : Action} (h : r.onSuccess = some g)
    (st : State) (start : Nat) (v : Value) :
    matchRule env ctx r d st start v = fun st2 =>
      let e := perform env ctx g ⟨start, st2.offset⟩ none (fillRule r d st2.ruleVar v)
        (State.mark { st2 with ruleVar := st.ruleVar } (.succeeded r.name ⟨start, st2.offset⟩))
      if e.1.passed then .matched e.1.attr (e.2.mark (.left r.name))
      else .failed ((e.2.mark (.left r.name)).moveTo st.cursor) := by
  funext st2
  simp only [matchRule, succeed, h]
  generalize perform env ctx g _ _ _ _ = e
  cases e.1.passed <;> rfl

theorem meets_call {r : Rule} {d : Definition} :
    (call env rec r d ctx st).Meets Q ↔
      Settles (skipOver env rec ctx st) (fun st1 =>
        (rec d.body { ctx with varTy := some r.ty }
            { st1.mark (.entered r.name) with ruleVar := Value.default r.ty }).Meets
          ⟨fun v st2 => (matchRule env ctx r d st st1.offset v st2).Meets Q,
            fun st2 => Q.miss { (missRule env ctx r st1.offset st2).mark (.left r.name) with
              cursor := st.cursor, ruleVar := st.ruleVar },
            Q.halt⟩) Q.halt := by
  simp only [call, meets_afterSkip, Outcome.meets_cases, Outcome.meets_failed]

theorem rule_meets {r : Rule}
    (found : ∀ d, (ctx.chain.injected? r.name).or (env.rules r.name) = some d →
      (call env rec r d ctx.outsideRules st).Meets Q)
    (missing : (ctx.chain.injected? r.name).or (env.rules r.name) = none →
      Q.halt ⟨.undefinedRule r.name, st⟩) :
    (rule env rec r ctx st).Meets Q := by
  unfold rule
  split
  · rename_i d hd
    exact found d hd
  · rename_i hnone
    exact missing hnone

end Node

/-! ## Terminals behind a skipper -/

section Terminals

variable {env : Env} {n : Nat} {ctx : Ctx} {st st1 : State} {t : Terminal}

/-- A terminal that takes nothing gives back what was skipped. -/
theorem parse_terminal_of_none (hskip : Node.skipOver env (parse env n) ctx st = .ok st1)
    (hscan : t.scan ctx.noCase st1.cursor.rest = none) :
    parse env (n + 1) (.terminal t) ctx st = .failed (st1.moveTo st.cursor) := by
  simp only [parse_succ, Node.step, hskip, Node.afterSkip, Node.takeTerminal, hscan]

/-- A terminal moves over the bytes that it takes. -/
theorem parse_terminal_of_some (hskip : Node.skipOver env (parse env n) ctx st = .ok st1)
    {len : Nat} {v : Value} (hscan : t.scan ctx.noCase st1.cursor.rest = some (len, v))
    {taken rest : Text} (hrest : st1.cursor.rest = taken ++ rest)
    (hlen : len = Text.byteLength taken) :
    parse env (n + 1) (.terminal t) ctx st =
      .matched v (st1.moveTo ⟨st1.offset + len, rest⟩) := by
  have hcursor : st1.cursor.advance? len = some ⟨st1.offset + len, rest⟩ := by
    rw [Cursor.advance?, Text.dropBytes?_eq_some_iff.mpr ⟨taken, hrest, hlen⟩]
    rfl
  simp only [parse_succ, Node.step, hskip, Node.afterSkip, Node.takeTerminal, hscan, hcursor]

end Terminals

/-! ## Runs -/

/-- The rules of an environment are those of the program. -/
theorem Program.mem_of_env (p : Program) {source : Text} {name : String} {d : Definition}
    (h : (p.env source).rules name = some d) : (name, d) ∈ p.rules := by
  obtain ⟨before, after, hrules, -⟩ := List.lookup_eq_some_iff.mp h
  rw [hrules]
  exact List.mem_append_right _ List.mem_cons_self

/-- A run ends as its parse does, after the skipper if it matched. -/
theorem runWithin_settles {p : Program} {fuel : Nat} {options : ParseOptions} {target : Ty}
    {slot : Value} {source : Text} {done : Program.Run → Prop} {halt : Halt → Prop}
    (h : (parse (p.env source) fuel p.grammar (p.context options)
        { cursor := .start source }).Meets
      ⟨fun v st => Settles (p.afterMatch fuel options source st) (fun st' =>
          done (Program.report source true (Value.merge target p.grammar.ty slot v) st')) halt,
        fun st => done (Program.report source false slot st), halt⟩) :
    Settles (p.runWithin fuel options target slot source) done halt := by
  rw [Program.runWithin]
  -- the skipper runs once more after a match only
  cases hp : parse (p.env source) fuel p.grammar (p.context options)
      { cursor := .start source } with
  | matched v st =>
    simp only [hp, Outcome.meets_matched] at h
    cases hs : p.afterMatch fuel options source st with
    | ok st' =>
      rw [hs] at h
      simp only [hs]
      exact h
    | error hlt =>
      rw [hs] at h
      simp only [hs]
      exact h
  | failed st => rwa [hp] at h
  | stopped hlt => rwa [hp] at h

end Peg
