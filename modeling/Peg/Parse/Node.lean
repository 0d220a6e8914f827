/-
  Peg.Parse.Node

  The behaviour of each kind of node, given the behaviour of the parsers below
  it. Nothing here is recursive over grammars; loops end because each round
  after the first one has to take something, or because rounds are counted.
-/
import Peg.Attribute.Declared
import Peg.Attribute.Merge
import Peg.Parse.State

namespace Peg

/-- How a parser behaves once its context is fixed. -/
abbrev Step := State → Outcome

namespace Node

/-! ## Loops -/

/-- Run a skipper as long as it matches and moves. -/
def skipLoop (p : Step) : Nat → State → Except Halt State
  | 0, st => .error ⟨.exhausted, st⟩
  | n + 1, st =>
    match p st with
    | .matched _ st' => if st'.offset = st.offset then .ok st' else skipLoop p n st'
    | .failed st' => .ok st'
    | .stopped h => .error h

/-- Run a parser as long as it matches and moves; the values newest first. -/
def repeatLoop (p : Step) : Nat → List Value → State → Except Halt (List Value × State)
  | 0, _, st => .error ⟨.exhausted, st⟩
  | n + 1, vs, st =>
    match p st with
    | .matched v st' =>
      if st'.offset = st.offset then .ok (v :: vs, st') else repeatLoop p n (v :: vs) st'
    | .failed st' => .ok (vs, st')
    | .stopped h => .error h

/-- Run a parser as long as it matches, at most so many times; the values newest first. -/
def repeatUpTo (p : Step) : Nat → List Value → State → Except Halt (List Value × State)
  | 0, vs, st => .ok (vs, st)
  | n + 1, vs, st =>
    match p st with
    | .matched v st' => repeatUpTo p n (v :: vs) st'
    | .failed st' => .ok (vs, st')
    | .stopped h => .error h

/-- Run a delimiter and an element as long as both match and move; the values newest first. A
    delimiter without an element after it is given back. -/
def listLoop (p d : Step) : Nat → List Value → State → Except Halt (List Value × State)
  | 0, _, st => .error ⟨.exhausted, st⟩
  | n + 1, vs, st =>
    match d st with
    | .failed st' => .ok (vs, st')
    | .stopped h => .error h
    | .matched _ st' =>
      match p st' with
      | .failed st'' => .ok (vs, st''.moveTo st.cursor)
      | .stopped h => .error h
      | .matched v st'' =>
        if st''.offset = st.offset then .ok (v :: vs, st'') else listLoop p d n (v :: vs) st''

/-- Try a parser at each place from the cursor to the end of the text. -/
def seekLoop (pending : State → Bool) (p : Step) (start : Cursor) : Nat → Text → State → Outcome
  | offset, rest, st =>
    match p (st.moveTo ⟨offset, rest⟩) with
    | .matched v st' => .matched v st'
    | .stopped h => .stopped h
    | .failed st' =>
      if pending st' then .failed (st'.moveTo start)
      else
        match rest with
        | [] => .failed (st'.moveTo start)
        | c :: r => seekLoop pending p start (offset + c.utf8Size) r st'

/-- How many rounds that move there can be from here on, and one more. -/
def rounds (env : Env) (st : State) : Nat := env.length + 1 - st.offset

/-! ## Skipping -/

/-- Skip with the skipper in force, unless skipping is switched off. The skipper runs in a
    context of its own. -/
def skipOver (env : Env) (rec : Grammar → Ctx → Step) (ctx : Ctx) (st : State) :
    Except Halt State :=
  match ctx.skipping, ctx.skipper with
  | true, some s => skipLoop (rec s Ctx.root) (rounds env st) st
  | _, _ => .ok st

/-- Go on after skipping. -/
def afterSkip (o : Except Halt State) (k : Step) : Outcome :=
  match o with
  | .ok st => k st
  | .error h => .stopped h

/-! ## Terminals -/

/-- Take what the terminal takes, from where the skipper left the cursor. -/
def takeTerminal (t : Terminal) (noCase : Bool) (start : Cursor) (st : State) : Outcome :=
  match t.scan noCase st.cursor.rest with
  | none => .failed (st.moveTo start)
  | some (n, v) =>
    match st.cursor.advance? n with
    | some c => .matched v (st.moveTo c)
    | none => .stopped ⟨.offBoundary (st.offset + n), st⟩

/-- The condition of an empty parser, and the state after asking for it. -/
def condition (c : Condition) (st : State) : Bool × State :=
  match c with
  | .always => (true, st)
  | .fixed holds => (holds, st)
  | .scripted id answers => st.ask id answers

theorem condition_eq (c : Condition) (st : State) :
    (condition c st).2 = { st with calls := (condition c st).2.calls } := by
  cases c <;> rfl

/-! ## Operators -/

/-- Each part after the one before; the values of the parts are collected by their types. -/
def seqLoop (run : Grammar → Step) (start : Cursor) : List Grammar → List Value → Step
  | [], slots, st => .matched (Value.slotsFinish slots) st
  | p :: ps, slots, st =>
    (run p st).cases
      (fun v st => seqLoop run start ps (Value.slotsPush slots p.ty v) st)
      (fun st => .failed (st.moveTo start))

/-- The first branch, or else the second; not when a failure is pending. -/
def alt (ctx : Ctx) (l r : Ty) (p q : Step) (st : State) : Outcome :=
  (p st).cases
    (fun v st => .matched (Value.alternativeLeft l r v) st)
    (fun st =>
      if st.pending ctx then .failed st
      else (q st).cases (fun v st => .matched (Value.alternativeRight l r v) st) .failed)

/-- The subject where the excluded parser does not match. -/
def diff (p q : Step) (st : State) : Outcome :=
  (q st).cases (fun _ st' => .failed (st'.moveTo st.cursor)) p

/-- The subject, or nothing; not when a failure is pending. -/
def opt (ctx : Ctx) (t : Ty) (p : Step) (st : State) : Outcome :=
  (p st).cases
    (fun v st => .matched (Value.optional t v) st)
    (fun st =>
      if st.pending ctx then .failed st else .matched (Value.default (Ty.optional t)) st)

/-- Whether the subject would match; the cursor stays. -/
def ahead (wanted : Bool) (p : Step) (st : State) : Outcome :=
  (p st).cases
    (fun _ st' =>
      if wanted then .matched .unused (st'.moveTo st.cursor) else .failed (st'.moveTo st.cursor))
    (fun st' =>
      if wanted then .failed (st'.moveTo st.cursor) else .matched .unused (st'.moveTo st.cursor))

/-- The end of a repetition: it needs enough values, and no failure may be pending. -/
def endRepeat (ctx : Ctx) (t : Ty) (min : Nat) (start : Cursor)
    (o : Except Halt (List Value × State)) : Outcome :=
  match o with
  | .error h => .stopped h
  | .ok (vs, st) =>
    if vs.length < min ∨ st.pending ctx then .failed (st.moveTo start)
    else .matched (Value.collect t vs.reverse) st

/-- As often as the subject matches, within bounds. -/
def times (env : Env) (ctx : Ctx) (t : Ty) (min : Nat) (max : Option Nat) (p : Step) (st : State) :
    Outcome :=
  endRepeat ctx t min st.cursor
    (match max with
    | none => repeatLoop p (rounds env st) [] st
    | some n => repeatUpTo p n [] st)

/-- Elements with delimiters between them. -/
def list (env : Env) (ctx : Ctx) (t : Ty) (p d : Step) (st : State) : Outcome :=
  (p st).cases
    (fun v st' => endRepeat ctx t 1 st.cursor (listLoop p d (rounds env st') [v] st'))
    .failed

/-- The first place where the subject matches. -/
def seek (ctx : Ctx) (p : Step) (st : State) : Outcome :=
  seekLoop (·.pending ctx) p st.cursor st.offset st.cursor.rest st

/-- A commit point. A miss is recorded at the place that the skipper reaches. -/
def expect (env : Env) (rec : Grammar → Ctx → Step) (ctx : Ctx) (p : Grammar) (st : State) :
    Outcome :=
  (rec p ctx st).cases .matched fun st' =>
    -- skipping finds the place of the failure; the cursor stays
    if ctx.tracking then
      afterSkip (skipOver env rec ctx st') fun st'' =>
        .failed ((st''.record ⟨st''.offset, p.what⟩).moveTo st'.cursor)
    else .failed st'

/-! ## Actions -/

/-- Run an action on a match of `span`, with a rule variable of type `varTy` in sight. -/
def perform (env : Env) (ctx : Ctx) (f : Action) (span : Span) (varTy : Option Ty) (v : Value)
    (st : State) : Effect × State :=
  let scene : Scene := { source := env.source, span, varTy, annotating := ctx.annotating }
  let e := f scene
    { attr := v, passed := true, ruleVar := st.ruleVar, bound := st.values ctx,
      annotations := st.annotations, events := [] }
  let st := st.store ctx e.bound
  (e, { st with
    events := e.events ++ st.events
    ruleVar := if varTy.isSome then e.ruleVar else st.ruleVar
    annotations := if scene.annotating then e.annotations else st.annotations })

section Frame

variable (env : Env) (ctx : Ctx) (f : Action) (span : Span) (varTy : Option Ty) (v : Value)
  (st : State)

@[simp] theorem perform_cursor : (perform env ctx f span varTy v st).2.cursor = st.cursor := by
  simp only [perform]
  rw [State.store_eq]

@[simp] theorem perform_offset : (perform env ctx f span varTy v st).2.offset = st.offset :=
  congrArg Cursor.offset (perform_cursor ..)

@[simp] theorem perform_failure : (perform env ctx f span varTy v st).2.failure = st.failure := by
  simp only [perform]
  rw [State.store_eq]

@[simp] theorem perform_journal : (perform env ctx f span varTy v st).2.journal = st.journal := by
  simp only [perform]
  rw [State.store_eq]

end Frame

/-- The subject, then the action on its match; a veto is a failure. -/
def action (env : Env) (rec : Grammar → Ctx → Step) (ctx : Ctx) (f : Action) (p : Step)
    (st : State) : Outcome :=
  afterSkip (skipOver env rec ctx st) fun st1 =>
    (p st1).cases
      (fun v st2 =>
        let span : Span := ⟨st1.offset, st2.offset⟩
        let (e, st3) := perform env ctx f span ctx.varTy v (st2.mark (.acted span))
        if e.passed then .matched e.attr st3 else .failed (st3.moveTo st.cursor))
      (fun st2 => .failed (st2.moveTo st.cursor))

/-! ## Directives -/

/-- The text that the subject takes, without what was skipped before it. -/
def raw (env : Env) (rec : Grammar → Ctx → Step) (ctx : Ctx) (p : Step) (st : State) : Outcome :=
  afterSkip (skipOver env rec ctx st) fun st1 =>
    (p st1).cases
      (fun _ st2 =>
        let taken := (Text.takeBytes? st1.cursor.rest (st2.offset - st1.offset)).getD []
        .matched (.text (String.ofList taken)) st2)
      (fun st2 => .failed (st2.moveTo st.cursor))

/-- The subject for another value. -/
def mapValue (f : Value → Value) (p : Step) (st : State) : Outcome :=
  (p st).cases (fun v st => .matched (f v) st) .failed

/-- Whether the subject matched. -/
def flag (p : Step) (st : State) : Outcome :=
  (p st).cases (fun _ st => .matched (.bool true) st) (fun st => .matched (.bool false) st)

/-- The narrowed attribute; no match when it cannot be narrowed. -/
def narrow (f : Value → Option Value) (p : Step) (st : State) : Outcome :=
  (p st).cases
    (fun v st' =>
      match f v with
      | some w => .matched w st'
      | none => .failed (st'.moveTo st.cursor))
    .failed

/-- Skip once, then the subject without skipping. -/
def lexeme (env : Env) (rec : Grammar → Ctx → Step) (ctx : Ctx) (p : Step) (st : State) :
    Outcome :=
  afterSkip (skipOver env rec ctx st) fun st1 =>
    (p st1).cases .matched (fun st2 => .failed (st2.moveTo st.cursor))

/-- Change the state that an outcome carries. -/
def mapState (f : State → State) : Outcome → Outcome
  | .matched v st => .matched v (f st)
  | .failed st => .failed (f st)
  | .stopped h => .stopped h

/-- The subject with a key bound. A fresh cell lives as long as this takes. -/
def bind (key : Key) (b : Binding) (p : Ctx → Step) (ctx : Ctx) (st : State) : Outcome :=
  match b with
  | .own v => p (ctx.bind key (.value v)) st
  | .annotations => p (ctx.bind key .annotations) st
  | .shared id initial => p (ctx.bind key (.cell (.shared id))) (st.openCell id initial)
  | .fresh initial =>
    -- the cell is gone afterwards, whether the subject matched or not
    mapState (fun st' => { st' with locals := st'.locals.drop 1 })
      (p (ctx.bind key (.cell (.fresh st.locals.length)))
        { st with locals := initial :: st.locals })

/-! ## Rules -/

/-- The attribute of a rule once its body matched with `v`: the variable alone when actions fill
    it, and with the value merged in otherwise. -/
def fillRule (r : Rule) (d : Definition) (ruleVar v : Value) : Value :=
  if d.force || r.forced || !d.body.hasAction then Value.merge r.ty d.body.ty ruleVar v
  else ruleVar

/-- The hook of a rule for matches, if it has one: the value that it leaves, or none after a
    veto. -/
def succeed (env : Env) (ctx : Ctx) (r : Rule) (span : Span) (v : Value) (st : State) :
    Option Value × State :=
  match r.onSuccess with
  | none => (some v, st)
  | some f =>
    let (e, st') := perform env ctx f span none v (st.mark (.succeeded r.name span))
    (if e.passed then some e.attr else none, st')

/-- The end of a call whose body matched with `v`: the rule takes the value, and its hook may veto
    the match. The rule was called in `st`, and its body began at `start`. -/
def matchRule (env : Env) (ctx : Ctx) (r : Rule) (d : Definition) (st : State) (start : Nat)
    (v : Value) (st2 : State) : Outcome :=
  let (taken, st3) := succeed env ctx r ⟨start, st2.offset⟩ (fillRule r d st2.ruleVar v)
    { st2 with ruleVar := st.ruleVar }
  let st4 := st3.mark (.left r.name)
  match taken with
  | some w => .matched w st4
  | none => .failed (st4.moveTo st.cursor)

/-- The hook of a rule whose body failed, if a failure is on record. -/
def missRule (env : Env) (ctx : Ctx) (r : Rule) (start : Nat) (st : State) : State :=
  match ctx.tracking, st.failure with
  | true, some f =>
    let span : Span := ⟨start, max f.position start⟩
    (perform env ctx (r.onError f) span (some r.ty) .unused (st.mark (.reported r.name span))).2
  | _, _ => st

section Frame

variable (env : Env) (ctx : Ctx) (r : Rule) (span : Span) (v : Value) (start : Nat) (st : State)

@[simp] theorem succeed_cursor : (succeed env ctx r span v st).2.cursor = st.cursor := by
  unfold succeed
  split <;> simp

@[simp] theorem succeed_offset : (succeed env ctx r span v st).2.offset = st.offset :=
  congrArg Cursor.offset (succeed_cursor ..)

@[simp] theorem succeed_failure : (succeed env ctx r span v st).2.failure = st.failure := by
  unfold succeed
  split <;> simp

/-- A rule with a hook for matches runs it, and no other. -/
theorem succeed_journal : (succeed env ctx r span v st).2.journal =
    if r.onSuccess.isSome then .succeeded r.name span :: st.journal else st.journal := by
  unfold succeed
  split <;> rename_i h <;> simp [h]

@[simp] theorem missRule_cursor : (missRule env ctx r start st).cursor = st.cursor := by
  unfold missRule
  split <;> simp

@[simp] theorem missRule_failure : (missRule env ctx r start st).failure = st.failure := by
  unfold missRule
  split <;> simp

/-- The hook for failures runs when failures are tracked and one is on record. -/
theorem missRule_journal : (missRule env ctx r start st).journal =
    match ctx.tracking, st.failure with
    | true, some f => .reported r.name ⟨start, max f.position start⟩ :: st.journal
    | _, _ => st.journal := by
  unfold missRule
  split <;> simp

end Frame

/-- Parse the body of a rule. The rule has a variable of its own while this lasts. -/
def call (env : Env) (rec : Grammar → Ctx → Step) (r : Rule) (d : Definition) (ctx : Ctx)
    (st : State) : Outcome :=
  afterSkip (skipOver env rec ctx st) fun st1 =>
    (rec d.body { ctx with varTy := some r.ty }
        { st1.mark (.entered r.name) with ruleVar := Value.default r.ty }).cases
      (matchRule env ctx r d st st1.offset)
      (fun st2 =>
        let st3 := (missRule env ctx r st1.offset st2).mark (.left r.name)
        .failed { st3 with cursor := st.cursor, ruleVar := st.ruleVar })

/-- A rule by its name: the newest injected definition, or else the one out of line. -/
def rule (env : Env) (rec : Grammar → Ctx → Step) (r : Rule) (ctx : Ctx) (st : State) : Outcome :=
  match (ctx.chain.injected? r.name).or (env.rules r.name) with
  | some d => call env rec r d ctx.outsideRules st
  | none => .stopped ⟨.undefinedRule r.name, st⟩

/-- A rule with its body, which is injected for the rule's name. -/
def define (env : Env) (rec : Grammar → Ctx → Step) (r : Rule) (d : Definition) (ctx : Ctx)
    (st : State) : Outcome :=
  call env rec r d (ctx.outsideRules.inject r.name d) st

/-! ## The table -/

/-- The behaviour of a grammar, given the behaviour of every grammar that it runs. -/
def step (env : Env) (rec : Grammar → Ctx → Step) : Grammar → Ctx → Step
  | .terminal t, ctx => fun st =>
    afterSkip (skipOver env rec ctx st) (takeTerminal t ctx.noCase st.cursor)
  | .eps c, ctx => fun st =>
    let (holds, st) := condition c st
    if holds then afterSkip (skipOver env rec ctx st) (.matched .unused) else .failed st
  | .attr _ v, _ => fun st => .matched v st
  | .seq ps, ctx => fun st => seqLoop (rec · ctx) st.cursor ps [] st
  | .alt p q, ctx => alt ctx p.ty q.ty (rec p ctx) (rec q ctx)
  | .diff p q, ctx => diff (rec p ctx) (rec q ctx)
  | .list p d, ctx => list env ctx p.ty (rec p ctx) (rec d ctx)
  | .opt p, ctx => opt ctx p.ty (rec p ctx)
  | .ahead p, ctx => ahead true (rec p ctx)
  | .notAhead p, ctx => ahead false (rec p ctx)
  | .kleene p, ctx => times env ctx p.ty 0 none (rec p ctx)
  | .plus p, ctx => times env ctx p.ty 1 none (rec p ctx)
  | .times min max p, ctx => times env ctx p.ty min max (rec p ctx)
  | .seek p, ctx => seek ctx (rec p ctx)
  | .expect p, ctx => expect env rec ctx p
  | .action p f, ctx => action env rec ctx f (rec p ctx)
  | .raw p, ctx => raw env rec ctx (rec p ctx)
  | .discard p, ctx => mapValue (fun _ => .unused) (rec p ctx)
  | .flag p, ctx => flag (rec p ctx)
  | .into t p, ctx => mapValue (Value.rebuilt t p.ty) (rec p ctx)
  | .narrow _ f p, ctx => narrow f (rec p ctx)
  | .lexeme p, ctx => lexeme env rec ctx (rec p { ctx with skipping := false })
  | .noSkip p, ctx => rec p { ctx with skipping := false }
  | .skip p, ctx => rec p { ctx with skipping := true }
  -- another skipper is in force at once, even where skipping was off
  | .skipWith s p, ctx => rec p { ctx with skipper := some s, skipping := true }
  | .noCase p, ctx => rec p { ctx with noCase := true }
  | .bind key b p, ctx => bind key b (rec p) ctx
  | .hide key p, ctx => rec p { ctx with chain := .hide key :: ctx.chain }
  | .rule r, ctx => rule env rec r ctx
  | .define r force body, ctx => define env rec r ⟨body, force⟩ ctx
  | .group p, ctx => rec p ctx
  | .sealed _ p, ctx => rec p ctx

end Node

end Peg
