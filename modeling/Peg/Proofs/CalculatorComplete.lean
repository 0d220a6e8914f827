/-
  Peg.Proofs.CalculatorComplete

  Every expression over unsigned decimals and known names has a value, and the
  calculator finds it however the expression is printed, as long as no sign runs
  into a name that starts like a word for a number. By induction on the syntax
  trees: each rule takes exactly the text of its tree, with a halt allowed at no
  place and a refusal at none. A chain of operators grows on its left side while
  its parser loops over it from the left, and so the induction on a chain says
  that the loop from its first operand leads to its end.
-/
import Peg.Proofs.CalculatorSteps

namespace Peg.Calculator

open Text

-- ============================================================================
-- Layouts of parts
-- ============================================================================

/-- The layout is a printing of these lexemes: numbers are unsigned decimals, names are known, and
    signs keep apart from what they would run into. -/
structure Laid (constants : Symbols Float) (ys : List Lexeme) (l : Layout) : Prop where
  lexemes : l.lexemes = ys
  valid : ∀ y ∈ ys, y.Valid Real.IsDecimal constants
  apart : l.IsChain Apart
  signs : l.IsChain ReadsNegated

namespace Laid

variable {constants : Symbols Float} {ys zs : List Lexeme} {y : Lexeme} {l : Layout}

theorem append (h : Laid constants (ys ++ zs) l) :
    ∃ l1 l2 : Layout, l = l1 ++ l2 ∧ Laid constants ys l1 ∧ Laid constants zs l2 := by
  obtain ⟨hlexemes, hvalid, hapart, hsigns⟩ := h
  obtain ⟨l1, l2, rfl, h1, h2⟩ := List.map_eq_append_iff.mp hlexemes
  exact ⟨l1, l2, rfl,
    ⟨h1, fun y hy => hvalid y (List.mem_append_left _ hy), hapart.left_of_append,
      hsigns.left_of_append⟩,
    ⟨h2, fun y hy => hvalid y (List.mem_append_right _ hy), hapart.right_of_append,
      hsigns.right_of_append⟩⟩

theorem cons (h : Laid constants (y :: ys) l) :
    ∃ (p : Printed) (l' : Layout), l = p :: l' ∧ p.lexeme = y ∧ Laid constants ys l' := by
  obtain ⟨hlexemes, hvalid, hapart, hsigns⟩ := h
  obtain ⟨p, l', rfl, hp, hl'⟩ := List.map_eq_cons_iff.mp hlexemes
  exact ⟨p, l', rfl, hp, hl', fun z hz => hvalid z (List.mem_cons_of_mem _ hz), hapart.tail,
    hsigns.tail⟩

/-- A part on the left, a mark, and a part on the right. -/
theorem split {a : Char} (h : Laid constants (ys ++ .mark a :: zs) l) :
    ∃ (l1 : Layout) (p : Printed) (l2 : Layout), l = l1 ++ p :: l2 ∧ p.lexeme = .mark a ∧
      Laid constants ys l1 ∧ Laid constants zs l2 := by
  obtain ⟨l1, l', rfl, h1, h'⟩ := h.append
  obtain ⟨p, l2, rfl, hp, h2⟩ := h'.cons
  exact ⟨l1, p, l2, rfl, hp, h1, h2⟩

end Laid

/-! ## What may follow -/

/-- A character that a number or a name could go on with. -/
def runsOn (c : Char) : Bool := isWordChar c || c == '.'

/-- The text does not go on with the lexeme before it, nor, after white space, with one of the
    operators. -/
structure Stops (ops : List Char) (t : Text) : Prop where
  lexeme : Avoids runsOn t
  operator : Avoids ops.contains (t.dropWhile isSpace)

/-- What goes on with a lexeme lies beyond all white space. -/
theorem le_of_runsOn {a : Char} (h : runsOn a = true) : 46 ≤ a.toNat := by
  simp only [runsOn, isWordChar, Char.isAlphanum, Char.isAlpha, Char.isUpper, Char.isLower,
    Char.isDigit, Bool.or_eq_true, Bool.and_eq_true, decide_eq_true_eq, beq_iff_eq,
    UInt32.le_iff_toNat_le, ge_iff_le] at h
  have : a.toNat = a.val.toNat := rfl
  have : 'A'.val.toNat = 65 := rfl
  have : 'a'.val.toNat = 97 := rfl
  have : '0'.val.toNat = 48 := rfl
  obtain (((⟨h, -⟩ | ⟨h, -⟩) | ⟨h, -⟩) | rfl) | rfl := h
  · omega
  · omega
  · omega
  · decide
  · decide

theorem toNat_le_of_isSpace {a : Char} (h : isSpace a = true) : a.toNat ≤ 32 := by
  simp only [isSpace, CharClass.holds, Bool.or_eq_true, beq_iff_eq, Bool.and_eq_true,
    decide_eq_true_eq] at h
  obtain rfl | ⟨-, h⟩ := h
  · decide
  · have h13 : a.val.toNat ≤ '\r'.val.toNat := UInt32.le_iff_toNat_le.mp h
    exact Nat.le_trans h13 (by decide)

theorem isSpace_of_runsOn {a : Char} (h : runsOn a = true) : isSpace a = false := by
  refine Bool.eq_false_iff.mpr fun hspace => ?_
  have h46 := le_of_runsOn h
  have h32 := toNat_le_of_isSpace hspace
  omega

theorem runsOn_of_isSpace {a : Char} (h : isSpace a = true) : runsOn a = false := by
  refine Bool.eq_false_iff.mpr fun hrun => ?_
  rw [isSpace_of_runsOn hrun] at h
  cases h

/-- White space and then a mark that is not one of the operators. -/
theorem stops_mark {ops : List Char} {b r : Text} {a : Char} (hb : ∀ d ∈ b, isSpace d = true)
    (ha : isSpace a = false) (hrun : runsOn a = false) (hops : ops.contains a = false) :
    Stops ops (b ++ a :: r) := by
  constructor
  · cases b with
    | nil => exact avoids_cons.mpr hrun
    | cons d b => exact avoids_cons.mpr (runsOn_of_isSpace (hb d List.mem_cons_self))
  · rw [dropWhile_append_of_avoids hb (avoids_cons.mpr ha)]
    exact avoids_cons.mpr hops

theorem dropWhile_blank {b : Text} (hb : ∀ d ∈ b, isSpace d = true) : b.dropWhile isSpace = [] := by
  simpa using dropWhile_append_of_avoids hb avoids_nil

theorem stops_blank {ops : List Char} {b : Text} (hb : ∀ d ∈ b, isSpace d = true) :
    Stops ops b := by
  constructor
  · cases b with
    | nil => exact avoids_nil
    | cons d b => exact avoids_cons.mpr (runsOn_of_isSpace (hb d List.mem_cons_self))
  · rw [dropWhile_blank hb]
    exact avoids_nil

-- ============================================================================
-- Calls and operators
-- ============================================================================

/-- No halt is allowed. -/
def noHalt : Halt → Prop := fun _ => False

/-- The number is `x` and the place is `c1`. -/
def Exactly (x : Float) (c1 : Cursor) : Float → Cursor → Prop := fun y c' => y = x ∧ c' = c1

/-- With this much fuel a call of the rule yields `x` and goes to `c1`, from before the white space
    at the cursor `c` as from behind it. -/
def CallTakes (env : Env) (r : Rule) (n : Nat) (c : Cursor) (x : Float) (c1 : Cursor) : Prop :=
  ∀ (varTy : Option Ty) (d : Cursor), d.In env.source → d.across isSpace = c.across isSpace →
    Yields noHalt (parse env n (Notation.call r) (scene varTy)) d (Exactly x c1) False False

variable {env : Env} {constants : Symbols Float} {n m : Nat} {c c1 c2 : Cursor} {a x y : Float}
  {operand : Rule} {op op' : Char} {f f' : Float → Float → Float} {K : Float → Cursor → Prop}
  {soft : Prop}

theorem callTakes_of_body {r : Rule} {body : Grammar} (hr : Fills env r body) (hn : 2 ≤ n)
    (h : ∀ m, n = m + 1 →
      Ends noHalt (parse env m body inside) (c.across isSpace) 0 (Exactly x c1) False False) :
    CallTakes env r n c x c1 := by
  intro varTy d hd hover
  refine call_yields hr (.inl hn) hd fun m hm => ?_
  rw [hover]
  exact h m hm

/-- Another operator is refused. -/
theorem applied_refuses (hty : operand.ty = .double) (hn : 4 ≤ n) (hc : c.In env.source)
    (h : Avoids (· == op) (c.across isSpace).rest) (hsoft : soft) :
    Updates noHalt (parse env n (applied op operand f) inside) c a K soft False := by
  refine combine_updates (.inl (by omega)) hc fun m hm => ?_
  refine operand_yields hty (.inl (by omega)) hc.across (fun m' rest _ hrest => ?_) fun _ => hsoft
  rw [Cursor.across_across] at hrest
  rw [hrest, avoids_cons, beq_self_eq_true] at h
  cases h

/-- An operator is taken together with its operand. -/
theorem applied_takes {rest : Text} (hty : operand.ty = .double) (hn : 4 ≤ n)
    (hc : c.In env.source) (hrest : (c.across isSpace).rest = op :: rest)
    (h : ∀ m, n = m + 3 → CallTakes env operand m ((c.across isSpace).past [op] rest) y c1) :
    Updates noHalt (parse env n (applied op operand f) inside) c a (Exactly (f a y) c1) soft
      False := by
  refine combine_updates (.inl (by omega)) hc fun m hm => ?_
  refine operand_yields hty (.inl (by omega)) hc.across (fun m' rest' hm' hrest' => ?_)
    fun hmiss => ?_
  · rw [Cursor.across_across, hrest] at hrest'
    obtain rfl := (List.cons.inj hrest').2
    rw [Cursor.across_across]
    refine (h m' (by omega) _ _ (hc.across.past hrest) rfl).mono ?_ id id
    rintro z c' ⟨rfl, rfl⟩
    exact ⟨rfl, rfl⟩
  · rw [Cursor.across_across, hrest, avoids_cons, beq_self_eq_true] at hmiss
    cases hmiss

-- ============================================================================
-- Chains
-- ============================================================================

/-- Each lexeme pays for the parsers of one factor. -/
def fuelFor (l : Layout) : Nat := 24 * l.length

/-- A call of the rule takes every printing of these lexemes, which have that value, in front of
    what does not go on with one of the operators. -/
def Complete (env : Env) (constants : Symbols Float) (r : Rule) (extra : Nat) (ops : List Char)
    (ys : List Lexeme) (value? : Option Float) : Prop :=
  ∀ (x : Float) (l : Layout) (rest : Text) (c : Cursor) (n : Nat), value? = some x →
    Laid constants ys l → c.In env.source → c.rest = l.text ++ rest → Stops ops rest →
    fuelFor l + extra ≤ n → CallTakes env r n c x (c.past l.text rest)

/-- The rounds from `c`, with `a` in the variable, go on with those from `c1`, with `x` in it. -/
def LeadsTo (p : Step) (c : Cursor) (a : Float) (c1 : Cursor) (x : Float) : Prop :=
  ∃ d, c.offset + d ≤ c1.offset ∧
    ∀ N K, Rounds noHalt p N c1 x K False → Rounds noHalt p (N + d) c a K False

theorem LeadsTo.refl (p : Step) (c : Cursor) (a : Float) : LeadsTo p c a c a :=
  ⟨0, Nat.le_refl _, fun _ _ h => h⟩

/-- One more round that moves. -/
theorem LeadsTo.step {p : Step} (h : LeadsTo p c a c1 x) (hmove : c1.offset < c2.offset)
    (hround : Updates noHalt p c1 x (Exactly y c2) False False) : LeadsTo p c a c2 y := by
  obtain ⟨d, hd, hlead⟩ := h
  refine ⟨d + 1, by omega, fun N K hN => ?_⟩
  have hone : Rounds noHalt p (N + 1) c1 x K False := by
    refine rounds_succ (hround.mono ?_ False.elim id)
    rintro _ _ ⟨rfl, rfl⟩
    exact ⟨fun he => absurd he (by omega), fun _ => hN⟩
  have := hlead (N + 1) K hone
  rwa [show N + 1 + d = N + (d + 1) by omega] at this

/-- The rounds of a chain. -/
def chainRound (operand : Rule) (op : Char) (f : Float → Float → Float) (op' : Char)
    (f' : Float → Float → Float) : Grammar :=
  Notation.orElse (applied op operand f) (applied op' operand f')

/-- The parser of a chain takes the first operand of these lexemes, and its rounds lead from there
    to their end and to their value. -/
def Leads (env : Env) (constants : Symbols Float) (operand : Rule) (round : Grammar) (extra : Nat)
    (ops : List Char) (ys : List Lexeme) (value? : Option Float) : Prop :=
  ∀ (x : Float) (l : Layout) (rest : Text) (c : Cursor) (n : Nat), value? = some x →
    Laid constants ys l → c.In env.source → c.rest = l.text ++ rest → Stops ops rest →
    fuelFor l + extra + 5 ≤ n →
    Updates noHalt (parse env (n + 1) (Notation.act assign (Notation.call operand)) inside)
      (c.across isSpace) 0
      (fun y c1 => LeadsTo (parse env n round inside) c1 y (c.past l.text rest) x) False False

variable {extra : Nat} {ops : List Char} {ys zs : List Lexeme} {v w : Option Float}

/-- A chain of one operand. -/
theorem leads_first {round : Grammar} (h : Complete env constants operand extra ops ys v) :
    Leads env constants operand round extra ops ys v := by
  intro x l rest c n hv hl hc hrest hstop hn
  refine combine_updates (.inl (by omega)) hc.across fun m hm => ?_
  obtain rfl : n = m := by omega
  rw [Cursor.across_across]
  refine (h x l rest c n hv hl hc hrest hstop (by omega) _ _ hc.across
    Cursor.across_across).mono ?_ id id
  rintro _ _ ⟨rfl, rfl⟩
  exact .refl ..

/-- One more operator of a chain. -/
theorem leads_step {round : Grammar} {g : Float → Float → Float} {o : Char}
    (hchain : Leads env constants operand round extra ops ys v)
    (hoperand : Complete env constants operand extra ops zs w)
    (ho : isSpace o = false ∧ runsOn o = false ∧ ops.contains o = false)
    (hround : ∀ {n : Nat} {c c1 : Cursor} {a y : Float} (rest : Text), 5 ≤ n → c.In env.source →
      (c.across isSpace).rest = o :: rest →
      (∀ m, n = m + 4 → CallTakes env operand m ((c.across isSpace).past [o] rest) y c1) →
      Updates noHalt (parse env n round inside) c a (Exactly (g a y) c1) False False) :
    Leads env constants operand round extra ops (ys ++ .mark o :: zs)
      (do return g (← v) (← w)) := by
  intro z l rest c n hv hl hc hrest hstop hn
  obtain ⟨x, hx, y, hy, rfl⟩ : ∃ x, v = some x ∧ ∃ y, w = some y ∧ g x y = z := by
    simpa [Option.bind_eq_some_iff] using hv
  obtain ⟨l1, p, l2, rfl, hp, h1, h2⟩ := hl.split
  have htext : Layout.text (l1 ++ p :: l2) = l1.text ++ (p.blank ++ o :: l2.text) := by
    simp [hp, Lexeme.text]
  have hfuel : fuelFor (l1 ++ p :: l2) = fuelFor l1 + 24 + fuelFor l2 := by
    simp only [fuelFor, List.length_append, List.length_cons]
    omega
  -- the chain so far ends in front of the operator
  have hrest1 : c.rest = l1.text ++ (p.blank ++ o :: (l2.text ++ rest)) := by
    rw [hrest, htext]
    simp
  have hleft := hchain x l1 (p.blank ++ o :: (l2.text ++ rest)) c n hx h1 hc hrest1
    (stops_mark p.blank_space ho.1 ho.2.1 ho.2.2) (by omega)
  refine hleft.mono (fun a c1 hlead => hlead.step ?_ ?_) id id
  · have := o.utf8Size_pos
    rw [Cursor.past_offset, Cursor.past_offset, htext]
    simp only [byteLength_append, byteLength_cons]
    omega
  · have hin := hc.past hrest1
    have hover : (c.past l1.text (p.blank ++ o :: (l2.text ++ rest))).across isSpace =
        c.past (l1.text ++ p.blank) (o :: (l2.text ++ rest)) := by
      rw [Cursor.across_of_append rfl p.blank_space (avoids_cons.mpr ho.1), Cursor.past_past]
    refine hround (l2.text ++ rest) (by omega) hin (by rw [hover]; rfl) fun m hm => ?_
    have hd : (c.past (l1.text ++ p.blank) (o :: (l2.text ++ rest))).In env.source := by
      rw [← hover]
      exact hin.across
    have htake := hoperand y l2 rest _ m hy h2 (hd.past (a := [o]) rfl) rfl hstop (by omega)
    rw [hover, htext]
    simpa using htake

/-! ## Rounds of a chain -/

theorem chainRound_first {rest : Text} (hty : operand.ty = .double) (hn : 5 ≤ n)
    (hc : c.In env.source) (hrest : (c.across isSpace).rest = op :: rest)
    (h : ∀ m, n = m + 4 → CallTakes env operand m ((c.across isSpace).past [op] rest) y c1) :
    Updates noHalt (parse env n (chainRound operand op f op' f') inside) c a (Exactly (f a y) c1)
      False False :=
  alt_updates (.inl (by omega)) fun _ hm =>
    applied_takes hty (by omega) hc hrest fun j hj => h j (by omega)

theorem chainRound_second {rest : Text} (hty : operand.ty = .double) (hn : 5 ≤ n)
    (hc : c.In env.source) (hne : op' ≠ op) (hrest : (c.across isSpace).rest = op' :: rest)
    (h : ∀ m, n = m + 4 → CallTakes env operand m ((c.across isSpace).past [op'] rest) y c1) :
    Updates noHalt (parse env n (chainRound operand op f op' f') inside) c a (Exactly (f' a y) c1)
      False False := by
  refine alt_updates (.inl (by omega)) fun m hm => ?_
  have hnot : Avoids (· == op) (c.across isSpace).rest := by
    rw [hrest]
    exact avoids_cons.mpr (beq_eq_false_iff_ne.mpr hne)
  exact applied_refuses hty (by omega) hc hnot
    (applied_takes hty (by omega) hc hrest fun j hj => h j (by omega))

/-- In front of neither operator the rounds are over. -/
theorem chainRound_over {N : Nat} (hty : operand.ty = .double) (hn : 5 ≤ n) (hc : c.In env.source)
    (hop : Avoids (· == op) (c.across isSpace).rest)
    (hop' : Avoids (· == op') (c.across isSpace).rest) (hK : K x c) :
    Rounds noHalt (parse env n (chainRound operand op f op' f') inside) (N + 1) c x K False := by
  refine rounds_succ (alt_updates (.inl (by omega)) fun m hm => ?_)
  exact applied_refuses hty (by omega) hc hop (applied_refuses hty (by omega) hc hop' hK)

theorem chainRound_end {N : Nat} (hty : operand.ty = .double) (hn : 5 ≤ n) (hc : c.In env.source)
    (hstop : Stops ops c.rest) (hop : op ∈ ops) (hop' : op' ∈ ops) (hK : K x c) :
    Rounds noHalt (parse env n (chainRound operand op f op' f') inside) (N + 1) c x K False := by
  have hnot : ∀ o ∈ ops, Avoids (· == o) (c.across isSpace).rest := fun o ho =>
    hstop.operator.mono fun d hd => by simpa [eq_of_beq hd] using ho
  exact chainRound_over hty hn hc (hnot op hop) (hnot op' hop') hK

/-- A chain that leads to its end is taken whole by the rule of the chain. -/
theorem chained_complete {r : Rule} {ops' : List Char}
    (hr : Fills env r (chained operand op f op' f')) (hty : operand.ty = .double)
    (hops : ops ⊆ ops') (hop : op ∈ ops') (hop' : op' ∈ ops')
    (h : Leads env constants operand (chainRound operand op f op' f') extra ops ys v) :
    Complete env constants r (extra + 9) ops' ys v := by
  intro x l rest c n hv hl hc hrest hstop hn
  refine callTakes_of_body hr (by omega) fun m hm => ?_
  refine chained_ends (.inl (by omega)) fun j hj => ?_
  have hstop' : Stops ops rest :=
    ⟨hstop.lexeme, hstop.operator.mono fun d hd => by simpa using hops (by simpa using hd)⟩
  refine (h x l rest c j hv hl hc hrest hstop' (by omega)).mono (fun y c1 hlead => ?_) id id
  -- the rounds that are left suffice for the way to the end and the look at what follows
  obtain ⟨d, hd, hlead⟩ := hlead
  have hend := hc.past hrest
  have hlen := hend.length
  obtain ⟨N, hN⟩ : ∃ N, byteLength env.source + 1 - c1.offset = N + 1 + d :=
    ⟨byteLength env.source - c1.offset - d, by omega⟩
  rw [hN]
  exact hlead (N + 1) _ (chainRound_end hty (by omega) hend hstop hop hop' ⟨rfl, rfl⟩)

-- ============================================================================
-- The branches of a factor
-- ============================================================================

section Branches

variable {d : Cursor} {rest : Text}

theorem IsName.wordChar {s : Text} (h : IsName s) : ∀ e ∈ s, isWordChar e = true := by
  obtain ⟨b, u, rfl, hb, hu⟩ := h
  intro e he
  obtain rfl | he := List.mem_cons.mp he
  · simp [isWordChar, Char.isAlphanum, hb]
  · exact hu e he

/-- A name ends where its letters, digits and underscores do. -/
theorem name_unique {s s' r r' : Text} (h : s ++ r = s' ++ r') (hs : IsName s) (hs' : IsName s')
    (hr : Avoids isWordChar r) (hr' : Avoids isWordChar r') : s = s' ∧ r = r' := by
  have hlong := congrArg (List.takeWhile isWordChar) h
  rw [takeWhile_append_of_avoids hs.wordChar hr, takeWhile_append_of_avoids hs'.wordChar hr']
    at hlong
  subst hlong
  exact ⟨rfl, List.append_cancel_left h⟩

theorem name_refuses (hn : 7 ≤ n) (hd : d.In env.source) (hover : d.across isSpace = d)
    (h : Avoids Char.isAlpha d.rest) (hsoft : soft) :
    Updates noHalt (parse env n (Notation.act (resolve constants) Notation.identifier) inside) d a K
      soft False := by
  refine resolve_updates (.inl hn) hd (fun s rest x hrest hname _ _ => ?_)
    (fun _ _ _ _ _ _ => hsoft) fun _ => hsoft
  obtain ⟨b, u, rfl, hb, -⟩ := hname
  rw [hover] at hrest
  rw [hrest, List.cons_append, avoids_cons, hb] at h
  cases h

/-- A known name is taken whole. -/
theorem name_takes {s : Text} (hn : 7 ≤ n) (hd : d.In env.source) (hover : d.across isSpace = d)
    (hname : IsName s) (hrest : d.rest = s ++ rest) (hr : Avoids isWordChar rest)
    (hfind : constants.find? (String.ofList s) = some x) :
    Updates noHalt (parse env n (Notation.act (resolve constants) Notation.identifier) inside) d a
      (Exactly x (d.past s rest)) soft False := by
  refine resolve_updates (.inl hn) hd (fun s' rest' x' hrest' hname' hr' hfind' => ?_)
    (fun s' rest' hrest' hname' hr' hfind' => ?_) fun hmiss => ?_
  · rw [hover] at hrest'
    obtain ⟨rfl, rfl⟩ := name_unique (hrest.symm.trans hrest') hname hname' hr hr'
    rw [hfind] at hfind'
    exact ⟨(Option.some.inj hfind').symm, by rw [hover]⟩
  · rw [hover] at hrest'
    obtain ⟨rfl, rfl⟩ := name_unique (hrest.symm.trans hrest') hname hname' hr hr'
    rw [hfind] at hfind'
    cases hfind'
  · obtain ⟨b, u, rfl, hb, -⟩ := hname
    rw [hover, hrest, List.cons_append, avoids_cons, hb] at hmiss
    cases hmiss

theorem number_refuses (hn : 4 ≤ n) (hd : d.In env.source) (hover : d.across isSpace = d)
    (h : Real.scan d.rest = none) (hsoft : soft) :
    Updates noHalt (parse env n (Notation.act assign Notation.double) inside) d a K soft False := by
  refine combine_updates (.inl (by omega)) hd fun m hm => ?_
  refine double_yields (.inl (by omega)) hd.across (fun u r y _ hscan _ _ => ?_) fun _ => hsoft
  rw [hover, hover, h] at hscan
  cases hscan

/-- What a scan finds is taken whole. -/
theorem numeral_takes {u : Text} (hn : 4 ≤ n) (hd : d.In env.source) (hover : d.across isSpace = d)
    (hrest : d.rest = u ++ rest) (hscan : Real.scan d.rest = some u.length)
    (hx : numberOf? u = some x) :
    Updates noHalt (parse env n (Notation.act assign Notation.double) inside) d a
      (Exactly x (d.past u rest)) soft False := by
  obtain ⟨y, hy, rfl⟩ := Option.map_eq_some_iff.mp hx
  refine combine_updates (.inl (by omega)) hd fun m hm => ?_
  refine double_yields (.inl (by omega)) hd.across
    (fun t r z ht hscan' _ hread => ?_) fun hmiss => ?_
  · rw [hover, hover] at ht hscan' ⊢
    rw [hscan] at hscan'
    rw [hrest] at ht
    obtain ⟨rfl, rfl⟩ := List.append_inj ht (Option.some.inj hscan')
    rw [hy] at hread
    obtain rfl := Option.some.inj hread
    exact ⟨rfl, rfl⟩
  · rw [hover, hover] at hmiss
    have hnone := hmiss _ hscan
    rw [hrest, List.take_left, hy] at hnone
    cases hnone

/-- A decimal is taken whole, together with the sign directly before it. -/
theorem number_takes {s t : Text} (hn : 4 ≤ n) (hd : d.In env.source) (hover : d.across isSpace = d)
    (hs : Real.IsSign s) (ht : Real.IsDecimal t) (hrest : d.rest = s ++ t ++ rest)
    (hr : Avoids Real.goesOn rest) (hx : numberOf? (s ++ t) = some x) :
    Updates noHalt (parse env n (Notation.act assign Notation.double) inside) d a
      (Exactly x (d.past (s ++ t) rest)) soft False := by
  have hscan : Real.scan d.rest = some (s ++ t).length := by
    rw [hrest, List.append_assoc]
    exact Real.scan_append hs ht hr
  exact numeral_takes hn hd hover hrest hscan hx

theorem bracket_refuses (hn : 5 ≤ n) (hd : d.In env.source) (hover : d.across isSpace = d)
    (h : Avoids (· == '(') d.rest) (hsoft : soft) :
    Updates noHalt (parse env n (Notation.act assign bracketed) inside) d a K soft False := by
  refine combine_updates (.inl (by omega)) hd fun m hm => ?_
  refine bracketed_yields (.inl (by omega)) hd.across (fun m' rest _ hrest => ?_) fun _ => hsoft
  rw [hover, hover] at hrest
  rw [hrest, avoids_cons, beq_self_eq_true] at h
  cases h

/-- An expression is taken together with its brackets. -/
theorem bracket_takes {t : Text} (hn : 5 ≤ n) (hd : d.In env.source)
    (hover : d.across isSpace = d) (hrest : d.rest = '(' :: rest) (hc1 : c1.In env.source)
    (hclose : (c1.across isSpace).rest = ')' :: t)
    (hend : (c1.across isSpace).past [')'] t = c2)
    (h : ∀ m, n = m + 3 → CallTakes env expressionRule m (d.past ['('] rest) x c1) :
    Updates noHalt (parse env n (Notation.act assign bracketed) inside) d a (Exactly x c2) soft
      False := by
  refine combine_updates (.inl (by omega)) hd fun m hm => ?_
  refine bracketed_yields (.inl (by omega)) hd.across (fun m' r hm' hr => ?_) fun hmiss => ?_
  · rw [hover, hover] at hr ⊢
    rw [hrest] at hr
    obtain rfl := (List.cons.inj hr).2
    refine (h m' (by omega) _ _ (hd.past (a := ['(']) hrest) rfl).mono ?_ id id
    rintro z c' ⟨rfl, rfl⟩
    refine ⟨hc1, fun r' hr' => ?_, fun hmiss => ?_⟩
    · rw [hclose] at hr'
      obtain rfl := (List.cons.inj hr').2
      exact ⟨rfl, hend⟩
    · rw [hclose, avoids_cons, beq_self_eq_true] at hmiss
      cases hmiss
  · rw [hover, hover, hrest, avoids_cons, beq_self_eq_true] at hmiss
    cases hmiss

end Branches

-- ============================================================================
-- Factors
-- ============================================================================

theorem Laid.single {y : Lexeme} {l : Layout} (h : Laid constants [y] l) :
    ∃ p : Printed, l = [p] ∧ p.lexeme = y := by
  obtain ⟨p, l', rfl, hp, hl'⟩ := h.cons
  obtain rfl := List.map_eq_nil_iff.mp hl'.lexemes
  exact ⟨p, rfl, hp⟩

theorem goesOn_le_runsOn {b : Char} (h : Real.goesOn b = true) : runsOn b = true := by
  simp only [Real.goesOn, runsOn, isWordChar, Bool.or_eq_true] at h ⊢
  exact h.imp .inl id

/-- White space avoids what a lexeme goes on with, and so only a lexeme without it counts. -/
theorem avoids_blank {b t : Text} (hb : ∀ e ∈ b, isSpace e = true)
    (h : b = [] → Avoids runsOn t) : Avoids runsOn (b ++ t) := by
  cases b with
  | nil => exact h rfl
  | cons e b => exact avoids_cons.mpr (runsOn_of_isSpace (hb e List.mem_cons_self))

theorem signCount_cons {o : Char} (t : Text) (ho : Real.IsSign [o]) :
    Real.signCount (o :: t) = 1 := by
  obtain h | h | h := ho <;> cases h <;> rfl

theorem scan_sign_eq_none {o : Char} {t : Text} (ho : Real.IsSign [o]) (h : Avoids runsOn t) :
    Real.scan (o :: t) = none := by
  refine Real.scan_eq_none_of_avoids ?_
  rw [signCount_cons t ho]
  exact h.mono fun _ => goesOn_le_runsOn

theorem scan_sign_mark {o b : Char} {y : Lexeme} {l : Layout} {zs : List Lexeme} (rest : Text)
    (ho : Real.IsSign [o]) (hy : y.text = [b]) (hb : runsOn b = false)
    (hl : Laid constants (y :: zs) l) : Real.scan (o :: (l.text ++ rest)) = none := by
  obtain ⟨q, l', rfl, hq, -⟩ := hl.cons
  refine scan_sign_eq_none ho ?_
  rw [Layout.text_cons, hq, hy, List.append_assoc, List.append_assoc]
  exact avoids_blank q.blank_space fun _ => avoids_cons.mpr hb

/-- Either a number stands directly behind the sign, or none is read from the sign on. -/
theorem sign_reads {o : Char} {f : Factor} {p : Printed} {l : Layout} {rest : Text}
    (ho : Real.IsSign [o]) (hp : p.lexeme = .sign o) (hapart : (p :: l).IsChain Apart)
    (hl : Laid constants f.lexemes l) (hrest : Avoids runsOn rest) :
    (∃ q t, f = .number t ∧ l = [q] ∧ q.lexeme = .number t ∧ q.blank = []) ∨
      Real.scan (o :: (l.text ++ rest)) = none := by
  cases f with
  | number t =>
    obtain ⟨q, rfl, hq⟩ := hl.single
    by_cases hblank : q.blank = []
    · exact .inl ⟨q, t, rfl, rfl, hq, hblank⟩
    · refine .inr (scan_sign_eq_none ho ?_)
      rw [Layout.text_cons, List.append_assoc, List.append_assoc]
      exact avoids_blank q.blank_space fun h => absurd h hblank
  | name s =>
    obtain ⟨q, rfl, hq⟩ := hl.single
    right
    by_cases hblank : q.blank = []
    · have hs : ¬ Real.LooksNumeric s :=
        (List.isChain_cons_cons.mp hapart).1 o s hp hblank hq
      obtain ⟨⟨b, u, rfl, hb, -⟩, -⟩ := hl.valid (.name s) (List.mem_singleton_self _)
      have htext : Layout.text [q] ++ rest = b :: u ++ rest := by
        simp [hq, hblank, Lexeme.text]
      rw [htext]
      refine Real.scan_eq_none_of_not_looksNumeric (s := b :: u) (r := rest) ?_
        (avoids_cons.mpr (Real.isFigure_of_isAlpha hb)) hs (hrest.mono fun e he => ?_)
      · rw [signCount_cons _ ho]
        rfl
      · simp [runsOn, isWordChar, he]
    · refine scan_sign_eq_none ho ?_
      rw [Layout.text_cons, List.append_assoc, List.append_assoc]
      exact avoids_blank q.blank_space fun h => absurd h hblank
  | bracket e => exact .inr (scan_sign_mark rest ho rfl (by decide) hl)
  | minus f => exact .inr (scan_sign_mark rest ho rfl (by decide) hl)
  | plus f => exact .inr (scan_sign_mark rest ho rfl (by decide) hl)

section Factors

variable {k : Calculator} {source : Text}

/-- A call of the factor takes what its branches do from behind the white space on. -/
theorem factor_takes {d : Cursor} (hn : 7 ≤ n) (hover : c.across isSpace = d)
    (h : ∀ m, n = m + 6 →
      Branches noHalt (k.program.env source) k.constants m d 0 (Exactly x c1) False False) :
    CallTakes (k.program.env source) factorRule n c x c1 := by
  refine callTakes_of_body (factor_fills k source) (by omega) fun m hm => ?_
  rw [hover]
  exact factorBody_ends (.inl (by omega)) fun j hj => h j (by omega)

/-- Behind the white space in front of a layout stands its first lexeme. -/
theorem arrive {p : Printed} {l : Layout} {t rest : Text} (hc : c.In env.source)
    (hp : p.lexeme.text = t) (hrest : c.rest = Layout.text (p :: l) ++ rest)
    (hfront : Avoids isSpace (t ++ (l.text ++ rest))) :
    ∃ d, c.across isSpace = d ∧ d.In env.source ∧ d.across isSpace = d ∧
      d.rest = t ++ (l.text ++ rest) ∧
      c.past (Layout.text (p :: l)) rest = d.past (t ++ l.text) rest := by
  rw [Layout.text_cons, hp, List.append_assoc, List.append_assoc] at hrest
  have hover := Cursor.across_of_append hrest p.blank_space hfront
  refine ⟨_, rfl, hc.across, Cursor.across_across, ?_, ?_⟩
  · rw [hover]
    rfl
  · rw [hover]
    simp [hp]

theorem avoids_isAlpha_of_isFigure {b : Char} {t : Text} (h : Real.isFigure b = true) :
    Avoids Char.isAlpha (b :: t) := by
  refine avoids_cons.mpr (Bool.eq_false_iff.mpr fun hb => ?_)
  rw [Real.isFigure_of_isAlpha hb] at h
  cases h

theorem number_complete (t : Text) :
    Complete (k.program.env source) k.constants factorRule 0 [] [.number t] (numberOf? t) := by
  intro x l rest c n hv hl hc hrest hstop hn
  obtain ⟨p, rfl, hp⟩ := hl.single
  have hfuel : 24 ≤ n := by simpa [fuelFor] using hn
  have ht : Real.IsDecimal t := hl.valid (.number t) (List.mem_singleton_self _)
  obtain ⟨b, u, rfl, hb⟩ := ht.front
  have hblank : isSpace b = false :=
    isSpace_of_runsOn (goesOn_le_runsOn (Real.goesOn_of_isFigure hb))
  obtain ⟨d, hover, hd, hstay, hdrest, hgoal⟩ :=
    arrive hc (t := b :: u) (by rw [hp]; rfl) hrest (avoids_cons.mpr hblank)
  rw [Layout.text_nil, List.nil_append] at hdrest
  rw [hgoal, Layout.text_nil, List.append_nil]
  refine factor_takes (by omega) hover fun m hm => ?_
  refine name_refuses (by omega) hd hstay ?_ ?_
  · rw [hdrest]
    exact avoids_isAlpha_of_isFigure hb
  · exact number_takes (by omega) hd hstay (.inl rfl) ht hdrest
      (hstop.lexeme.mono fun _ => goesOn_le_runsOn) hv

theorem name_complete (s : Text) :
    Complete (k.program.env source) k.constants factorRule 0 [] [.name s]
      (k.constants.find? (String.ofList s)) := by
  intro x l rest c n hv hl hc hrest hstop hn
  obtain ⟨p, rfl, hp⟩ := hl.single
  have hfuel : 24 ≤ n := by simpa [fuelFor] using hn
  obtain ⟨hname, -⟩ := hl.valid (.name s) (List.mem_singleton_self _)
  have hfront : Avoids isSpace (s ++ rest) := by
    obtain ⟨b, u, rfl, hb, -⟩ := hname
    exact avoids_cons.mpr (isSpace_of_runsOn (by simp [runsOn, isWordChar, Char.isAlphanum, hb]))
  obtain ⟨d, hover, hd, hstay, hdrest, hgoal⟩ := arrive hc (by rw [hp]; rfl) hrest hfront
  rw [Layout.text_nil, List.nil_append] at hdrest
  rw [hgoal, Layout.text_nil, List.append_nil]
  refine factor_takes (by omega) hover fun m hm => ?_
  exact name_takes (by omega) hd hstay hname hdrest
    (hstop.lexeme.mono fun e he => by simp [runsOn, he]) hv

/-- An expression in brackets, when the expression is taken. -/
theorem bracket_complete {e : Expression}
    (h : Complete (k.program.env source) k.constants expressionRule 18 ['+', '-', '*', '/']
      e.lexemes (e.value? k.constants)) :
    Complete (k.program.env source) k.constants factorRule 0 [] (Factor.bracket e).lexemes
      (e.value? k.constants) := by
  intro x l rest c n hv hl hc hrest hstop hn
  obtain ⟨p, l', rfl, hp, hl'⟩ := hl.cons
  obtain ⟨l1, q, l2, rfl, hq, hl1, hl2⟩ := hl'.split
  obtain rfl := List.map_eq_nil_iff.mp hl2.lexemes
  have hfuel : fuelFor l1 + 48 ≤ n := by
    simp only [fuelFor, List.length_cons, List.length_append, List.length_nil] at hn ⊢
    omega
  obtain ⟨d, hover, hd, hstay, hdrest, hgoal⟩ :=
    arrive hc (t := ['(']) (by rw [hp]; rfl) hrest (avoids_cons.mpr (by decide))
  have htext : Layout.text (l1 ++ [q]) = l1.text ++ (q.blank ++ [')']) := by
    simp [hq, Lexeme.text]
  -- what is behind the opening bracket, and how the expression ends
  obtain ⟨inner, hinner⟩ : ∃ t, t = l1.text ++ (q.blank ++ ')' :: rest) := ⟨_, rfl⟩
  have hopen : d.rest = '(' :: inner := by
    rw [hdrest, htext, hinner]
    simp
  have hin := hd.past (a := ['(']) hopen
  have hin1 := hin.past (a := l1.text) (r := q.blank ++ ')' :: rest) hinner
  have hspace : isSpace ')' = false := by decide
  have hclose : ((d.past ['('] inner).past l1.text (q.blank ++ ')' :: rest)).across isSpace =
      d.past ('(' :: l1.text ++ q.blank) (')' :: rest) := by
    rw [Cursor.across_of_append rfl q.blank_space (avoids_cons.mpr hspace), Cursor.past_past,
      Cursor.past_past]
    rfl
  have hstop1 : Stops ['+', '-', '*', '/'] (q.blank ++ ')' :: rest) :=
    stops_mark q.blank_space hspace (by decide) (by decide)
  rw [hgoal, htext]
  refine factor_takes (by omega) hover fun m hm => ?_
  refine name_refuses (by omega) hd hstay ?_ ?_
  · rw [hopen]
    exact avoids_cons.mpr (by decide)
  · refine number_refuses (by omega) hd hstay ?_ ?_
    · rw [hopen]
      exact Real.scan_eq_none_of_avoids (avoids_cons.mpr (by decide))
    · refine bracket_takes (t := rest) (by omega) hd hstay hopen hin1 (by rw [hclose]; rfl) ?_
        fun j hj => h x l1 _ _ j hv hl1 hin hinner hstop1 (by omega)
      rw [hclose, Cursor.past_past]
      simp

/-- A sign and a factor: a number directly behind the sign is read with it, and everything else is
    left to the branch of the sign. -/
theorem sign_complete {o : Char} {f : Factor} {g : Float → Float} (ho : Real.IsSign [o])
    (h : Complete (k.program.env source) k.constants factorRule 0 [] f.lexemes
      (f.value? k.constants))
    (hread : ∀ (p q : Printed) (t : Text), p.lexeme = .sign o → ReadsNegated p q → q.blank = [] →
      q.lexeme = .number t → Real.IsDecimal t → numberOf? (o :: t) = (numberOf? t).map g)
    (hbranch : ∀ {m : Nat} {d c1 : Cursor} {y : Float} (rest : Text), 8 ≤ m →
      d.In (k.program.env source).source → d.across isSpace = d → d.rest = o :: rest →
      (∀ j, m ≤ j + 1 →
        CallTakes (k.program.env source) factorRule j (d.past [o] rest) y c1) →
      Updates noHalt (parse (k.program.env source) (m + 2)
          (applied '-' factorRule fun _ v => -v) inside) d 0 (Exactly (g y) c1)
        (Updates noHalt (parse (k.program.env source) (m + 3)
          (applied '+' factorRule fun _ v => v) inside) d 0 (Exactly (g y) c1) False False) False) :
    Complete (k.program.env source) k.constants factorRule 0 [] (.sign o :: f.lexemes)
      ((f.value? k.constants).map g) := by
  intro x l rest c n hv hl hc hrest hstop hn
  obtain ⟨y, hy, rfl⟩ := Option.map_eq_some_iff.mp hv
  obtain ⟨p, l', rfl, hp, hl'⟩ := hl.cons
  have hfuel : fuelFor l' + 24 ≤ n := by
    simp only [fuelFor, List.length_cons] at hn ⊢
    omega
  obtain ⟨hblank, halpha, hopen⟩ :
      isSpace o = false ∧ o.isAlpha = false ∧ (o == '(') = false := by
    obtain h | h | h := ho <;> cases h <;> decide
  obtain ⟨d, hover, hd, hstay, hdrest, hgoal⟩ :=
    arrive hc (t := [o]) (by rw [hp]; rfl) hrest (avoids_cons.mpr hblank)
  rw [hgoal]
  refine factor_takes (by omega) hover fun m hm => ?_
  refine name_refuses (by omega) hd hstay ?_ ?_
  · rw [hdrest]
    exact avoids_cons.mpr halpha
  obtain ⟨q, t, rfl, rfl, hq, hnone⟩ | hscan :=
    sign_reads ho hp hl.apart hl' hstop.lexeme
  · have ht : Real.IsDecimal t := hl'.valid (.number t) (List.mem_singleton_self _)
    have htext : Layout.text [q] = t := by simp [hq, hnone, Lexeme.text]
    rw [htext] at hdrest ⊢
    have hnegated : ReadsNegated p q := (List.isChain_cons_cons.mp hl.signs).1
    refine number_takes (by omega) hd hstay ho ht (by rw [hdrest, List.append_assoc])
      (hstop.lexeme.mono fun _ => goesOn_le_runsOn) ?_
    rw [List.singleton_append, hread p q t hp hnegated hnone hq ht]
    exact hv
  · refine number_refuses (by omega) hd hstay ?_ ?_
    · rw [hdrest]
      exact hscan
    · refine bracket_refuses (by omega) hd hstay ?_ ?_
      · rw [hdrest]
        exact avoids_cons.mpr hopen
      · refine hbranch (l'.text ++ rest) (by omega) hd hstay hdrest fun j hj => ?_
        have hin := hd.past (a := [o]) hdrest
        have htake := h y l' rest _ j hy hl' hin rfl hstop (by omega)
        rwa [Cursor.past_past] at htake

theorem minus_complete {f : Factor}
    (h : Complete (k.program.env source) k.constants factorRule 0 [] f.lexemes
      (f.value? k.constants)) :
    Complete (k.program.env source) k.constants factorRule 0 [] (Factor.minus f).lexemes
      ((Factor.minus f).value? k.constants) := by
  refine sign_complete (.inr (.inr rfl)) h (fun p q t hp hnegated hblank hq _ => ?_) ?_
  · exact hnegated t hp hblank hq
  · intro m d c1 y rest hm hd hstay hrest hcall
    have hover : (d.across isSpace).rest = '-' :: rest := by rw [hstay, hrest]
    exact applied_takes rfl (by omega) hd hover fun j hj => by
      rw [hstay]
      exact hcall j (by omega)

theorem plus_complete {f : Factor}
    (h : Complete (k.program.env source) k.constants factorRule 0 [] f.lexemes
      (f.value? k.constants)) :
    Complete (k.program.env source) k.constants factorRule 0 [] (Factor.plus f).lexemes
      ((Factor.plus f).value? k.constants) := by
  have hsign := sign_complete (o := '+') (g := id) (.inr (.inl rfl)) h ?_ ?_
  · rwa [Option.map_id] at hsign
  · intro p q t _ _ _ _ ht
    have hplus := Real.read?_append (s := ['+']) (.inr (.inl rfl)) ht
    have hnone := Real.read?_append (s := []) (.inl rfl) ht
    rw [Option.map_id, id, numberOf?, numberOf?, ← List.singleton_append, hplus]
    rw [List.nil_append] at hnone
    rw [hnone]
    rfl
  · intro m d c1 y rest hm hd hstay hrest hcall
    have hover : (d.across isSpace).rest = '+' :: rest := by rw [hstay, hrest]
    refine applied_refuses rfl (by omega) hd ?_ ?_
    · rw [hover]
      exact avoids_cons.mpr (by decide)
    · exact applied_takes rfl (by omega) hd hover fun j hj => by
        rw [hstay]
        exact hcall j (by omega)

end Factors

-- ============================================================================
-- The three rules
-- ============================================================================

section Rules

variable (k : Calculator) (source : Text)

theorem term_complete {t : Term}
    (h : Leads (k.program.env source) k.constants factorRule
      (chainRound factorRule '*' (· * ·) '/' (· / ·)) 0 [] t.lexemes (t.value? k.constants)) :
    Complete (k.program.env source) k.constants termRule 9 ['*', '/'] t.lexemes
      (t.value? k.constants) :=
  chained_complete (term_fills k source) rfl (List.nil_subset _) (by decide) (by decide) h

theorem expression_complete {e : Expression}
    (h : Leads (k.program.env source) k.constants termRule
      (chainRound termRule '+' (· + ·) '-' (· - ·)) 9 ['*', '/'] e.lexemes
      (e.value? k.constants)) :
    Complete (k.program.env source) k.constants expressionRule 18 ['+', '-', '*', '/'] e.lexemes
      (e.value? k.constants) :=
  chained_complete (expression_fills k source) rfl (by decide) (by decide) (by decide) h

mutual

theorem expression_leads (e : Expression) :
    Leads (k.program.env source) k.constants termRule
      (chainRound termRule '+' (· + ·) '-' (· - ·)) 9 ['*', '/'] e.lexemes
      (e.value? k.constants) :=
  match e with
  | .term t => leads_first (term_complete k source (term_leads t))
  | .add e t =>
    leads_step (expression_leads e) (term_complete k source (term_leads t)) (by decide)
      fun _ hn hc hrest h => chainRound_first rfl hn hc hrest h
  | .sub e t =>
    leads_step (expression_leads e) (term_complete k source (term_leads t)) (by decide)
      fun _ hn hc hrest h => chainRound_second rfl hn hc (by decide) hrest h

theorem term_leads (t : Term) :
    Leads (k.program.env source) k.constants factorRule
      (chainRound factorRule '*' (· * ·) '/' (· / ·)) 0 [] t.lexemes (t.value? k.constants) :=
  match t with
  | .factor f => leads_first (factor_complete f)
  | .mul t f =>
    leads_step (term_leads t) (factor_complete f) (by decide)
      fun _ hn hc hrest h => chainRound_first rfl hn hc hrest h
  | .div t f =>
    leads_step (term_leads t) (factor_complete f) (by decide)
      fun _ hn hc hrest h => chainRound_second rfl hn hc (by decide) hrest h

theorem factor_complete (f : Factor) :
    Complete (k.program.env source) k.constants factorRule 0 [] f.lexemes
      (f.value? k.constants) :=
  match f with
  | .number t => number_complete t
  | .name s => name_complete s
  | .bracket e => bracket_complete (expression_complete k source (expression_leads e))
  | .minus f => minus_complete (factor_complete f)
  | .plus f => plus_complete (factor_complete f)

end

end Rules

-- ============================================================================
-- Values of trees
-- ============================================================================

section Values

variable (constants)

theorem numberOf?_isSome {t : Text} (h : Real.IsDecimal t) : (numberOf? t).isSome := by
  have hread := Real.read?_append (s := []) (.inl rfl) h
  rw [List.nil_append] at hread
  rw [numberOf?, hread, Option.isSome_map, Option.isSome_map]
  exact Real.readDecimal?_isSome h

theorem combined_isSome {v w : Option Float} (g : Float → Float → Float) (hv : v.isSome)
    (hw : w.isSome) : (do return g (← v) (← w)).isSome := by
  obtain ⟨x, rfl⟩ := Option.isSome_iff_exists.mp hv
  obtain ⟨y, rfl⟩ := Option.isSome_iff_exists.mp hw
  rfl

/-- Decimals and known names -/
abbrev Readable (ys : List Lexeme) : Prop := ∀ y ∈ ys, y.Valid Real.IsDecimal constants

theorem combined_readable {ys zs : List Lexeme} {o : Char} {v w : Option Float}
    (g : Float → Float → Float) (h : Readable constants (ys ++ .mark o :: zs))
    (hv : Readable constants ys → v.isSome) (hw : Readable constants zs → w.isSome) :
    (do return g (← v) (← w)).isSome :=
  combined_isSome g (hv fun y hy => h y (List.mem_append_left _ hy))
    (hw fun y hy => h y (List.mem_append_right _ (List.mem_cons_of_mem _ hy)))

mutual

theorem expression_isSome (e : Expression) (h : Readable constants e.lexemes) :
    (e.value? constants).isSome :=
  match e with
  | .term t => term_isSome t h
  | .add e t => combined_readable constants (· + ·) h (expression_isSome e) (term_isSome t)
  | .sub e t => combined_readable constants (· - ·) h (expression_isSome e) (term_isSome t)

theorem term_isSome (t : Term) (h : Readable constants t.lexemes) :
    (t.value? constants).isSome :=
  match t with
  | .factor f => factor_isSome f h
  | .mul t f => combined_readable constants (· * ·) h (term_isSome t) (factor_isSome f)
  | .div t f => combined_readable constants (· / ·) h (term_isSome t) (factor_isSome f)

theorem factor_isSome (f : Factor) (h : Readable constants f.lexemes) :
    (f.value? constants).isSome :=
  match f with
  | .number t => numberOf?_isSome (h (.number t) (List.mem_singleton_self _))
  | .name s => (h (.name s) (List.mem_singleton_self _)).2
  | .bracket e => expression_isSome e fun y hy =>
    h y (List.mem_cons_of_mem _ (List.mem_append_left _ hy))
  | .minus f => by
    rw [Factor.value?, Option.isSome_map]
    exact factor_isSome f fun y hy => h y (List.mem_cons_of_mem _ hy)
  | .plus f => factor_isSome f fun y hy => h y (List.mem_cons_of_mem _ hy)

end

end Values

-- ============================================================================
-- Whole texts
-- ============================================================================

/-- Every lexeme takes at least one byte. -/
theorem Laid.length_le {ys : List Lexeme} {l : Layout} (h : Laid constants ys l) :
    l.length ≤ byteLength l.text := by
  induction l generalizing ys with
  | nil => exact Nat.zero_le _
  | cons p l ih =>
    cases ys with
    | nil => cases h.lexemes
    | cons y ys =>
      obtain ⟨p', l', he, hp, hl⟩ := h.cons
      cases he
      have hfront : ∃ b u, p.lexeme.text = b :: u := by
        rw [hp]
        cases y with
        | number t =>
          have ht : Real.IsDecimal t := h.valid _ List.mem_cons_self
          obtain ⟨b, u, rfl, -⟩ := ht.front
          exact ⟨b, u, rfl⟩
        | name s =>
          obtain ⟨⟨b, u, rfl, -⟩, -⟩ := h.valid _ List.mem_cons_self
          exact ⟨b, u, rfl⟩
        | mark b => exact ⟨b, [], rfl⟩
        | sign b => exact ⟨b, [], rfl⟩
      obtain ⟨b, u, hu⟩ := hfront
      have hb := b.utf8Size_pos
      have hlen := ih hl
      rw [Layout.text_cons, hu]
      simp only [List.length_cons, byteLength_append, byteLength_cons]
      omega

theorem le_fuel (p : Program) (source : Text) : 64 * (byteLength source + 8) ≤ p.fuel source := by
  have hsegment : 0 < stackSegment := by decide
  calc 64 * (byteLength source + 8)
    _ = (byteLength source + 8) * 8 * 8 := by omega
    _ ≤ (byteLength source + p.size + 8) * (p.size + 8) * (2 * p.size + 8) :=
      Nat.mul_le_mul (Nat.mul_le_mul (by omega) (by omega)) (by omega)
    _ ≤ p.fuel source := Nat.le_of_lt (Nat.lt_mul_of_div_lt (Nat.lt_succ_self _) hsegment)

/-- Every expression over unsigned decimals and known names has a value, and the calculator gives
    it for every writing of the expression, with white space between the lexemes and behind them,
    where no sign runs into a name that starts like a word for a number. A minus may run into a
    number that is read with it, as long as that gives the negated number. -/
theorem evaluate_complete (k : Calculator) (e : Expression) (l : Layout) (trail : Text)
    (hvalid : ∀ y ∈ e.lexemes, y.Valid Real.IsDecimal k.constants)
    (hl : l.lexemes = e.lexemes) (htrail : ∀ a ∈ trail, isSpace a = true)
    (hapart : l.IsChain Apart) (hsigns : l.IsChain ReadsNegated) :
    ∃ v, e.value? k.constants = some v ∧
      k.evaluate (String.ofList (l.text ++ trail)) = .ok v := by
  obtain ⟨v, hv⟩ := Option.isSome_iff_exists.mp (expression_isSome k.constants e hvalid)
  refine ⟨v, hv, ?_⟩
  obtain ⟨source, hsource⟩ : ∃ t, t = l.text ++ trail := ⟨_, rfl⟩
  have hlaid : Laid k.constants e.lexemes l := ⟨hl, hvalid, hapart, hsigns⟩
  have hfuel : fuelFor l + 18 ≤ k.program.fuel source := by
    have hlen := hlaid.length_le
    have hle := le_fuel k.program source
    rw [hsource, byteLength_append] at hle
    rw [hsource, fuelFor]
    omega
  have hin : (Cursor.start source).In (k.program.env source).source := Cursor.start_in _
  have hrest : (Cursor.start source).rest = l.text ++ trail := hsource
  have htake := expression_complete k source (expression_leads k source e) v l trail
    (.start source) _ hv hlaid hin hrest (stops_blank htrail) hfuel
  have hrun : Settles (k.program.run {} .double (.double 0) source)
      (fun r => valueOf r = .ok v) noHalt := by
    refine runWithin_settles ?_
    refine (htake none _ hin rfl _ rfl rfl).mono ?_ ?_ fun _ h => h
    · rintro w st ⟨hfail, -, x, rfl, rfl, hc⟩
      have hst : st.cursor.In source := by
        rw [hc]
        exact hin.past hrest
      refine (skipOver_space none (.inl (by omega)) hst).mono ?_ fun _ h => h
      -- the skipper behind the expression comes to the end of the text
      rintro _ rfl
      have hend : (st.cursor.across isSpace).rest = [] := by
        rw [hc, Cursor.across, Cursor.past_rest, Cursor.past_rest]
        exact dropWhile_blank htrail
      have hlen := hst.across (f := isSpace).length
      rw [hend, byteLength_nil, Nat.add_zero] at hlen
      refine valueOf_eq_ok.mpr ⟨?_, rfl, ?_, merge_double x⟩
      · simpa [Program.report] using hfail
      · simpa [ParseResult.isFull, Program.report] using hlen
    · rintro st ⟨-, -, hplain, hrecorded⟩
      by_cases hfail : st.failure = none
      · exact (hplain hfail).elim
      · exact (hrecorded hfail).elim
  rw [evaluate, String.toList_ofList, ← hsource]
  cases hres : k.program.run {} .double (.double 0) source with
  | error hlt =>
    rw [hres] at hrun
    exact hrun.elim
  | ok r =>
    rw [hres] at hrun
    exact hrun

/-- A product with a sum in brackets. -/
def weighted : Expression :=
  .term (.mul (.factor (.number ['2']))
    (.bracket (.add (.term (.factor (.minus (.name ['x'])))) (.factor (.number "1.5e1".toList)))))

/-- A lexeme directly after the one before it. -/
def joined (y : Lexeme) : Printed := ⟨[], y, List.forall_mem_nil _⟩

/-- A lexeme after a blank. -/
def spaced (y : Lexeme) : Printed := ⟨[' '], y, List.forall_mem_singleton.mpr rfl⟩

/-- The product, spaced by hand. -/
def weightedLayout : Layout :=
  [joined (.number ['2']), spaced (.mark '*'), joined (.mark '('), joined (.sign '-'),
    joined (.name ['x']), spaced (.mark '+'), spaced (.number "1.5e1".toList),
    joined (.mark ')')]

theorem evaluate_complete_weighted :
    (∀ y ∈ weighted.lexemes, y.Valid Real.IsDecimal (.ofList [("x", 0.5)])) ∧
      weightedLayout.lexemes = weighted.lexemes ∧ weightedLayout.IsChain Apart ∧
      weightedLayout.IsChain ReadsNegated ∧
      ∃ v, weighted.value? (.ofList [("x", 0.5)]) = some v ∧
        (Calculator.mk (.ofList [("x", 0.5)])).evaluate "2 *(-x + 1.5e1)\n" = .ok v := by
  have htwo : Real.IsDecimal ['2'] :=
    ⟨['2'], [], rfl, .inl ⟨by simp [Real.AreDigits], by simp⟩, .inl rfl⟩
  have hfifteen : Real.IsDecimal "1.5e1".toList := by
    refine ⟨['1', '.', '5'], ['e', '1'], rfl, .inr ⟨['1'], ['5'], rfl, ?_, ?_, by simp⟩,
      .inr ⟨'e', [], ['1'], rfl, .inl rfl, .inl rfl, ?_, by simp⟩⟩ <;> simp [Real.AreDigits]
  have hx : Lexeme.Valid Real.IsDecimal (.ofList [("x", 0.5)]) (.name ['x']) :=
    ⟨⟨'x', [], rfl, by decide, by simp⟩, by decide⟩
  have hvalid : ∀ y ∈ weighted.lexemes, y.Valid Real.IsDecimal (.ofList [("x", 0.5)]) := by
    intro y hy
    simp only [weighted, Expression.lexemes, Term.lexemes, Factor.lexemes, List.cons_append,
      List.nil_append, List.mem_cons, List.not_mem_nil, or_false] at hy
    obtain rfl | rfl | rfl | rfl | rfl | rfl | rfl | rfl := hy
    · exact htwo
    · trivial
    · trivial
    · trivial
    · exact hx
    · trivial
    · exact hfifteen
    · trivial
  have hapart : weightedLayout.IsChain Apart := by
    simp [weightedLayout, joined, spaced, Apart, Real.LooksNumeric]
  have hsigns : weightedLayout.IsChain ReadsNegated := by
    simp [weightedLayout, joined, spaced, ReadsNegated]
  exact ⟨hvalid, rfl, hapart, hsigns,
    evaluate_complete _ weighted weightedLayout ['\n'] hvalid rfl
      (List.forall_mem_singleton.mpr rfl) hapart hsigns⟩

end Peg.Calculator
