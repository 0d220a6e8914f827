/-
  Peg.Proofs.CalculatorSound

  Whatever the calculator gives a number for is an expression with that value,
  written with white space between its lexemes, and nothing of the text is left
  out. The three rules are shown sound together, by induction on the fuel: each
  takes the text of a layout and leaves the value of its tree in the variable.
  Along a chain of operators that number is the value of what was taken so far.
-/
import Peg.Proofs.CalculatorSteps

namespace Peg.Calculator

open Text

-- ============================================================================
-- What was taken
-- ============================================================================

/-- Which numbers a layout can stand for. -/
abbrev Meaning := Layout → Float → Prop

/-- The layout is a writing of an expression of this value. -/
def Expression.Reads (constants : Symbols Float) (l : Layout) (x : Float) : Prop :=
  ∃ e : Expression, l.lexemes = e.lexemes ∧ e.value? constants = some x

def Term.Reads (constants : Symbols Float) (l : Layout) (x : Float) : Prop :=
  ∃ t : Term, l.lexemes = t.lexemes ∧ t.value? constants = some x

def Factor.Reads (constants : Symbols Float) (l : Layout) (x : Float) : Prop :=
  ∃ f : Factor, l.lexemes = f.lexemes ∧ f.value? constants = some x

/-- The text from `c` up to `c'` is a layout of valid lexemes that stands for `x`. -/
def Covers (constants : Symbols Float) (G : Meaning) (c : Cursor) (x : Float) (c' : Cursor) :
    Prop :=
  ∃ l : Layout, ∃ rest, c.rest = l.text ++ rest ∧ c' = c.past l.text rest ∧
    (∀ y ∈ l.lexemes, y.Valid Real.IsNumeral constants) ∧ G l x

/-- The lexeme, with the white space that stands at the cursor in front of it. -/
def printedAt (c : Cursor) (y : Lexeme) : Printed :=
  ⟨c.rest.takeWhile isSpace, y, List.all_eq_true.mp List.all_takeWhile⟩

variable {constants : Symbols Float} {G G' : Meaning} {c c1 c2 : Cursor} {x y z : Float}

/-- One lexeme after white space. -/
theorem covers_lexeme {w : Lexeme} {rest : Text} (hrest : (c.across isSpace).rest = w.text ++ rest)
    (hw : w.Valid Real.IsNumeral constants) (hG : ∀ l, Layout.lexemes l = [w] → G l x) :
    Covers constants G c x ((c.across isSpace).past w.text rest) := by
  refine ⟨[printedAt c w], rest, ?_, ?_, by simpa [printedAt] using hw, hG _ rfl⟩
  · have hsplit : c.rest = c.rest.takeWhile isSpace ++ (c.across isSpace).rest :=
      List.takeWhile_append_dropWhile.symm
    rw [hsplit, hrest]
    simp [printedAt]
  · simp [Cursor.across, printedAt]

/-- The layout is that one lexeme, whatever number is asked for. -/
def IsLexeme (w : Lexeme) : Meaning := fun l _ => l.lexemes = [w]

/-- The layout is that lexeme and then one that stands for the number. -/
def Marked (w : Lexeme) (G : Meaning) : Meaning := fun l x =>
  ∃ l1 l2 : Layout, l = l1 ++ l2 ∧ l1.lexemes = [w] ∧ G l2 x

/-- The lexeme is a mark or a sign of one character. -/
def Writes (w : Lexeme) (a : Char) : Prop := w = .mark a ∨ w = .sign a

theorem covers_mark {w : Lexeme} {a : Char} {rest : Text} (hw : Writes w a) (x : Float)
    (hrest : (c.across isSpace).rest = a :: rest) :
    Covers constants (IsLexeme w) c x ((c.across isSpace).past [a] rest) := by
  obtain rfl | rfl := hw
  · exact covers_lexeme (w := .mark a) hrest trivial fun _ h => h
  · exact covers_lexeme (w := .sign a) hrest trivial fun _ h => h

/-- What covers a text, and what covers more of it. -/
theorem Covers.append {G'' : Meaning} (h : Covers constants G c x c1)
    (h' : Covers constants G' c1 y c2) (hG : ∀ l l', G l x → G' l' y → G'' (l ++ l') z) :
    Covers constants G'' c z c2 := by
  obtain ⟨l, rest1, hl, rfl, hvalid, hx⟩ := h
  obtain ⟨l', rest2, hl', rfl, hvalid', hy⟩ := h'
  refine ⟨l ++ l', rest2, ?_, ?_, ?_, hG l l' hx hy⟩
  · rw [Cursor.past_rest] at hl'
    rw [hl, hl', Layout.text_append, List.append_assoc]
  · rw [Cursor.past_past, Layout.text_append]
  · intro w hw
    rw [Layout.lexemes_append, List.mem_append] at hw
    exact hw.elim (hvalid w) (hvalid' w)

theorem covers_marked {w : Lexeme} {a : Char} {rest : Text} (hw : Writes w a)
    (hrest : (c.across isSpace).rest = a :: rest)
    (h : Covers constants G ((c.across isSpace).past [a] rest) x c1) :
    Covers constants (Marked w G) c x c1 :=
  (covers_mark hw x hrest).append h fun l1 l2 h1 h2 => ⟨l1, l2, rfl, h1, h2⟩

theorem Covers.mono (h : Covers constants G c x c1) (hG : ∀ l, G l x → G' l y) :
    Covers constants G' c y c1 := by
  obtain ⟨l, rest, hl, hc, hvalid, hx⟩ := h
  exact ⟨l, rest, hl, hc, hvalid, hG l hx⟩

theorem Covers.in {t : Text} (h : Covers constants G c x c1) (hc : c.In t) : c1.In t := by
  obtain ⟨l, rest, hl, rfl, -⟩ := h
  exact hc.past hl

-- ============================================================================
-- Calls and chains
-- ============================================================================

/-- Every halt is allowed. -/
def anyHalt : Halt → Prop := fun _ => True

theorem enough_anyHalt (n k : Nat) : Enough anyHalt n k := .inr fun _ => trivial

/-- With this much fuel a call of the rule takes the text of a layout and yields a number that it
    stands for, from before the white space as from behind it. -/
def CallSound (env : Env) (constants : Symbols Float) (r : Rule) (G : Meaning) (n : Nat) : Prop :=
  ∀ (varTy : Option Ty) (c d : Cursor), c.In env.source → d.In env.source →
    d.across isSpace = c.across isSpace →
    Yields anyHalt (parse env n (Notation.call r) (scene varTy)) d (Covers constants G c) True True

variable {env : Env} {n : Nat}

theorem callSound_of_body {r : Rule} {body : Grammar} (hr : Fills env r body)
    (h : ∀ m c, n = m + 1 → c.In env.source →
      Ends anyHalt (parse env m body inside) (c.across isSpace) 0 (Covers constants G c) True True) :
    CallSound env constants r G n := by
  intro varTy c d hc hd hover
  refine call_yields hr (enough_anyHalt ..) hd fun m hm => ?_
  rw [hover]
  exact h m c hm hc

/-- An operator and its operand. -/
theorem applied_sound {operand : Rule} {op : Char} {w : Lexeme} {f : Float → Float → Float}
    {K : Float → Cursor → Prop} {soft : Prop} {d : Cursor} (hw : Writes w op)
    (hty : operand.ty = .double)
    (hn : ∀ m < n, CallSound env constants operand G m) (hc : c.In env.source)
    (hd : d.In env.source) (hover : d.across isSpace = c.across isSpace) (hsoft : soft)
    (hK : ∀ y c', Covers constants (Marked w G) c y c' → K (f x y) c') :
    Updates anyHalt (parse env n (applied op operand f) inside) d x K soft True := by
  refine combine_updates (enough_anyHalt ..) hd fun m hm => ?_
  refine operand_yields hty (enough_anyHalt ..) hd.across
    (fun m' rest hm' hrest => ?_) fun _ => hsoft
  rw [Cursor.across_across, hover] at hrest ⊢
  have hin := hc.across.past (a := [op]) hrest
  exact (hn m' (by omega) _ _ _ hin hin rfl).mono
    (fun y c' hy => hK y c' (covers_marked hw hrest hy)) id id

/-- Along a chain the variable holds the number of what was taken so far. -/
theorem rounds_sound {operand : Rule} {op op' : Char} {f f' : Float → Float → Float}
    (hty : operand.ty = .double) (hn : ∀ m < n, CallSound env constants operand G' m)
    (hc : c.In env.source)
    (hop : ∀ l l1 l2 x y, G l x → Layout.lexemes l1 = [.mark op] → G' l2 y →
      G (l ++ (l1 ++ l2)) (f x y))
    (hop' : ∀ l l1 l2 x y, G l x → Layout.lexemes l1 = [.mark op'] → G' l2 y →
      G (l ++ (l1 ++ l2)) (f' x y)) (N : Nat) (h : Covers constants G c x c1) :
    Rounds anyHalt
      (parse env n (Notation.orElse (applied op operand f) (applied op' operand f')) inside) N c1 x
      (Covers constants G c) True := by
  induction N generalizing x c1 with
  | zero => exact fun vs st _ => trivial
  | succ N ih =>
    refine rounds_succ (alt_updates (enough_anyHalt ..) fun m hm => ?_)
    have hc1 := h.in hc
    have hn' : ∀ j < m, CallSound env constants operand G' j := fun j hj => hn j (by omega)
    refine applied_sound (.inl rfl) hty hn' hc1 hc1 rfl ?_ fun y c2 hy => ?_
    · refine applied_sound (.inl rfl) hty hn' hc1 hc1 rfl h fun y c2 hy => ?_
      have hnext : Covers constants G c (f' x y) c2 := h.append hy
        fun l l' hl ⟨l1, l2, he, h1, h2⟩ => he ▸ hop' l l1 l2 x y hl h1 h2
      exact ⟨fun _ => hnext, fun _ => ih hnext⟩
    · have hnext : Covers constants G c (f x y) c2 := h.append hy
        fun l l' hl ⟨l1, l2, he, h1, h2⟩ => he ▸ hop l l1 l2 x y hl h1 h2
      exact ⟨fun _ => hnext, fun _ => ih hnext⟩

/-- A chain over sound operands is sound. -/
theorem chained_sound {operand r : Rule} {op op' : Char} {f f' : Float → Float → Float}
    (hr : Fills env r (chained operand op f op' f')) (hty : operand.ty = .double)
    (hn : ∀ m < n, CallSound env constants operand G' m) (hfirst : ∀ l x, G' l x → G l x)
    (hop : ∀ l l1 l2 x y, G l x → Layout.lexemes l1 = [.mark op] → G' l2 y →
      G (l ++ (l1 ++ l2)) (f x y))
    (hop' : ∀ l l1 l2 x y, G l x → Layout.lexemes l1 = [.mark op'] → G' l2 y →
      G (l ++ (l1 ++ l2)) (f' x y)) : CallSound env constants r G n := by
  refine callSound_of_body hr fun m c hm hc => ?_
  refine chained_ends (enough_anyHalt ..) fun j hj => ?_
  refine combine_updates (enough_anyHalt ..) hc.across fun i hi => ?_
  rw [Cursor.across_across]
  refine (hn i (by omega) _ c _ hc hc.across Cursor.across_across).mono (fun y c' hy => ?_) id id
  exact rounds_sound hty (fun i hi => hn i (by omega)) hc hop hop' _ (hy.mono fun l => hfirst l y)

-- ============================================================================
-- The branches of a factor
-- ============================================================================

theorem name_sound (constants : Symbols Float) (hc : c.In env.source) :
    Updates anyHalt (parse env n (Notation.act (resolve constants) Notation.identifier) inside)
      (c.across isSpace) y (Covers constants (Factor.Reads constants) c) True True := by
  refine resolve_updates (enough_anyHalt ..) hc.across (fun s rest x hrest hname _ hfind => ?_)
    (fun _ _ _ _ _ _ => trivial) fun _ => trivial
  rw [Cursor.across_across] at hrest ⊢
  exact covers_lexeme (w := .name s) hrest ⟨hname, by rw [hfind]; rfl⟩
    fun l hl => ⟨.name s, hl, hfind⟩

theorem number_sound (constants : Symbols Float) (hc : c.In env.source) :
    Updates anyHalt (parse env n (Notation.act assign Notation.double) inside) (c.across isSpace) y
      (Covers constants (Factor.Reads constants) c) True True := by
  refine combine_updates (enough_anyHalt ..) hc.across fun m _ => ?_
  refine double_yields (enough_anyHalt ..) hc.across.across (fun u rest x hrest _ hu hread => ?_)
    fun _ => trivial
  rw [Cursor.across_across, Cursor.across_across] at hrest ⊢
  refine covers_lexeme (w := .number u) hrest hu fun l hl => ⟨.number u, hl, ?_⟩
  rw [Factor.value?, numberOf?, hread]
  rfl

theorem bracketed_sound (hc : c.In env.source)
    (hn : ∀ m < n, CallSound env constants expressionRule (Expression.Reads constants) m) :
    Updates anyHalt (parse env n (Notation.act assign bracketed) inside) (c.across isSpace) y
      (Covers constants (Factor.Reads constants) c) True True := by
  refine combine_updates (enough_anyHalt ..) hc.across fun m hm => ?_
  refine bracketed_yields (enough_anyHalt ..) hc.across.across (fun m' rest hm' hrest => ?_)
    fun _ => trivial
  rw [Cursor.across_across, Cursor.across_across] at hrest ⊢
  have hin := hc.across.past (a := ['(']) hrest
  refine (hn m' (by omega) _ _ _ hin hin rfl).mono (fun x c1 hx => ?_) id id
  refine ⟨hx.in hin, fun rest' hrest' => ?_, fun _ => trivial⟩
  refine (covers_marked (.inl rfl) hrest hx).append (covers_mark (.inl rfl) x hrest') ?_
  rintro _ l3 ⟨l1, l2, rfl, h1, e, he, hvalue⟩ h3
  refine ⟨.bracket e, ?_, hvalue⟩
  rw [Layout.lexemes_append, Layout.lexemes_append, h1, h3, he]
  rfl

theorem sign_sound {a : Char} {f : Float → Float → Float} (g : Factor → Factor)
    (hc : c.In env.source)
    (hn : ∀ m < n, CallSound env constants factorRule (Factor.Reads constants) m)
    (hlexemes : ∀ e : Factor, (g e).lexemes = .sign a :: e.lexemes)
    (hvalue : ∀ (e : Factor) z, e.value? constants = some z →
      (g e).value? constants = some (f y z)) :
    Updates anyHalt (parse env n (applied a factorRule f) inside) (c.across isSpace) y
      (Covers constants (Factor.Reads constants) c) True True := by
  refine applied_sound (.inr rfl) rfl hn hc hc.across Cursor.across_across trivial
    fun z c1 hz => hz.mono ?_
  rintro _ ⟨l1, l2, rfl, h1, e, he, hz⟩
  refine ⟨g e, ?_, hvalue e z hz⟩
  rw [Layout.lexemes_append, h1, he, hlexemes]
  rfl

-- ============================================================================
-- The three rules
-- ============================================================================

section Rules

variable {k : Calculator} {source : Text}

theorem factor_sound
    (hexpression : ∀ m < n, CallSound (k.program.env source) k.constants expressionRule
      (Expression.Reads k.constants) m)
    (hfactor : ∀ m < n, CallSound (k.program.env source) k.constants factorRule
      (Factor.Reads k.constants) m) :
    CallSound (k.program.env source) k.constants factorRule (Factor.Reads k.constants) n := by
  refine callSound_of_body (factor_fills k source) fun m c hm hc => ?_
  refine factorBody_ends (enough_anyHalt ..) fun j hj => ?_
  -- a branch is tried when those before it refused, and each is sound by itself
  have hplus := sign_sound (n := j + 3) (y := 0) (a := '+') (f := fun _ v => v) .plus hc
    (fun i hi => hfactor i (by omega)) (fun _ => rfl) fun e z hz => hz
  have hminus := sign_sound (n := j + 2) (y := 0) (a := '-') (f := fun _ v => -v) .minus hc
    (fun i hi => hfactor i (by omega)) (fun _ => rfl)
    fun e z hz => by rw [Factor.value?, hz]; rfl
  have hbracketed := bracketed_sound (n := j + 1) (y := 0) hc fun i hi => hexpression i (by omega)
  have hnumber := number_sound (n := j) (y := 0) k.constants hc
  have hname := name_sound (n := j) (y := 0) k.constants hc
  refine hname.mono (fun _ _ => id) (fun _ => ?_) id
  refine hnumber.mono (fun _ _ => id) (fun _ => ?_) id
  refine hbracketed.mono (fun _ _ => id) (fun _ => ?_) id
  exact hminus.mono (fun _ _ => id) (fun _ => hplus) id

theorem term_sound
    (hfactor : ∀ m < n, CallSound (k.program.env source) k.constants factorRule
      (Factor.Reads k.constants) m) :
    CallSound (k.program.env source) k.constants termRule (Term.Reads k.constants) n := by
  refine chained_sound (term_fills k source) rfl hfactor ?_ ?_ ?_
  · rintro l x ⟨f, hf, hx⟩
    exact ⟨.factor f, hf, hx⟩
  · rintro l l1 l2 x y ⟨t, ht, hx⟩ h1 ⟨f, hf, hy⟩
    refine ⟨.mul t f, ?_, by rw [Term.value?, hx, hy]; rfl⟩
    rw [Layout.lexemes_append, Layout.lexemes_append, h1, ht, hf]
    rfl
  · rintro l l1 l2 x y ⟨t, ht, hx⟩ h1 ⟨f, hf, hy⟩
    refine ⟨.div t f, ?_, by rw [Term.value?, hx, hy]; rfl⟩
    rw [Layout.lexemes_append, Layout.lexemes_append, h1, ht, hf]
    rfl

theorem expression_sound
    (hterm : ∀ m < n, CallSound (k.program.env source) k.constants termRule
      (Term.Reads k.constants) m) :
    CallSound (k.program.env source) k.constants expressionRule (Expression.Reads k.constants)
      n := by
  refine chained_sound (expression_fills k source) rfl hterm ?_ ?_ ?_
  · rintro l x ⟨t, ht, hx⟩
    exact ⟨.term t, ht, hx⟩
  · rintro l l1 l2 x y ⟨e, he, hx⟩ h1 ⟨t, ht, hy⟩
    refine ⟨.add e t, ?_, by rw [Expression.value?, hx, hy]; rfl⟩
    rw [Layout.lexemes_append, Layout.lexemes_append, h1, he, ht]
    rfl
  · rintro l l1 l2 x y ⟨e, he, hx⟩ h1 ⟨t, ht, hy⟩
    refine ⟨.sub e t, ?_, by rw [Expression.value?, hx, hy]; rfl⟩
    rw [Layout.lexemes_append, Layout.lexemes_append, h1, he, ht]
    rfl

/-- The three rules are sound with any fuel. -/
theorem rules_sound (k : Calculator) (source : Text) (n : Nat) :
    CallSound (k.program.env source) k.constants expressionRule (Expression.Reads k.constants) n ∧
      CallSound (k.program.env source) k.constants termRule (Term.Reads k.constants) n ∧
      CallSound (k.program.env source) k.constants factorRule (Factor.Reads k.constants) n := by
  -- every rule calls the others with less fuel
  induction n using Nat.strongRecOn with
  | ind n ih =>
    exact ⟨expression_sound fun m hm => (ih m hm).2.1, term_sound fun m hm => (ih m hm).2.2,
      factor_sound (fun m hm => (ih m hm).1) fun m hm => (ih m hm).2.2⟩

end Rules

/-- Whatever the calculator gives a number for is an expression of that value, written with white
    space between its lexemes and behind it. -/
theorem evaluate_sound (k : Calculator) (source : String) (v : Float)
    (h : k.evaluate source = .ok v) :
    ∃ (e : Expression) (l : Layout) (trail : Text),
      (∀ y ∈ e.lexemes, y.Valid Real.IsNumeral k.constants) ∧ l.lexemes = e.lexemes ∧
      (∀ a ∈ trail, isSpace a = true) ∧ source.toList = l.text ++ trail ∧
      e.value? k.constants = some v := by
  have hrun : Settles (k.program.run {} .double (.double 0) source.toList)
      (fun r => ∀ v, valueOf r = .ok v → ∃ (e : Expression) (l : Layout) (trail : Text),
        (∀ y ∈ e.lexemes, y.Valid Real.IsNumeral k.constants) ∧ l.lexemes = e.lexemes ∧
        (∀ a ∈ trail, isSpace a = true) ∧ source.toList = l.text ++ trail ∧
        e.value? k.constants = some v) anyHalt := by
    refine runWithin_settles ?_
    have hin : (Cursor.start source.toList).In (k.program.env source.toList).source :=
      Cursor.start_in _
    have hcall := (rules_sound k source.toList (k.program.fuel source.toList)).1
    refine (hcall none _ _ hin hin rfl _ rfl rfl).mono ?_ ?_ fun _ h => h
    · rintro w st ⟨-, -, x, rfl, l, rest, hl, hc, hvalid, e, he, hx⟩
      have hst : st.cursor.In source.toList := by
        rw [hc]
        exact hin.past hl
      refine (skipOver_space none (enough_anyHalt ..) hst).mono ?_ fun _ h => h
      rintro _ rfl v hv
      obtain ⟨-, -, hfull, hslot⟩ := valueOf_eq_ok.mp hv
      obtain rfl : x = v := Value.double.inj ((merge_double x).symm.trans hslot)
      have hend : (st.cursor.across isSpace).rest = [] := hst.across.rest_eq_nil (by
        simpa [ParseResult.isFull, Program.report] using hfull)
      refine ⟨e, l, rest.takeWhile isSpace, he ▸ hvalid, he, List.all_eq_true.mp List.all_takeWhile,
        ?_, hx⟩
      -- nothing is left behind the white space after the expression
      have hsplit : rest = rest.takeWhile isSpace ++ rest.dropWhile isSpace :=
        List.takeWhile_append_dropWhile.symm
      rw [hc, Cursor.across, Cursor.past_rest, Cursor.past_rest] at hend
      rw [hend, List.append_nil] at hsplit
      rw [← hsplit]
      exact hl
    · intro st _ v hv
      obtain ⟨-, hmatched, -⟩ := valueOf_eq_ok.mp hv
      cases hmatched
  rw [evaluate] at h
  cases hres : k.program.run {} .double (.double 0) source.toList with
  | error hlt =>
    rw [hres] at h
    cases h
  | ok r =>
    rw [hres] at h hrun
    exact hrun v h

/-- A known name and a word for a number, where `inf` is first tried as a name. -/
theorem evaluate_sound_half :
    ∃ v, (Calculator.mk (.ofList [("half", 0.5)])).evaluate " 2 *(half - inf)" = .ok v ∧
      ∃ (e : Expression) (l : Layout) (trail : Text),
        (∀ y ∈ e.lexemes, y.Valid Real.IsNumeral (.ofList [("half", 0.5)])) ∧
        l.lexemes = e.lexemes ∧ (∀ a ∈ trail, isSpace a = true) ∧
        " 2 *(half - inf)".toList = l.text ++ trail ∧
        e.value? (.ofList [("half", 0.5)]) = some v := by
  have hok : ((Calculator.mk (.ofList [("half", 0.5)])).evaluate
      " 2 *(half - inf)").toOption.isSome = true := by
    decide +kernel
  cases h : (Calculator.mk (.ofList [("half", 0.5)])).evaluate " 2 *(half - inf)" with
  | error e =>
    rw [h] at hok
    cases hok
  | ok v => exact ⟨v, rfl, evaluate_sound _ _ v h⟩

end Peg.Calculator
