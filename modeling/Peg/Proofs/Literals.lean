/-
  Peg.Proofs.Literals

  A fixed word can be written in four ways: as a word, as a word that is yielded,
  as a table of symbols that holds nothing else, and as a lexeme of its characters
  one after the other. All of them take the same front of the text, which is the one
  that agrees with the word character by character. The four searches are brought
  to this by `Agrees`: the scan of a word (`Literal.scan_eq_some_iff`), the search of
  a table (`Represents.scan_single`), and the characters of a lexeme one at a time
  (`TakesWord.cases`).
-/
import Peg.Proofs.Expansions
import Peg.Proofs.LongestMatch
import Peg.Proofs.Skipping

namespace Peg

open Text

-- ============================================================================
-- Fronts that agree with a word
-- ============================================================================

theorem Text.agrees_append {noCase : Bool} {front front' s s' : Text} (h : Agrees noCase front s)
    (h' : Agrees noCase front' s') : Agrees noCase (front ++ front') (s ++ s') :=
  List.rel_append h h'

/-- What agrees with two words in a row is a front for the first and one for the second. -/
theorem Text.Agrees.of_append {noCase : Bool} {front s s' : Text}
    (h : Agrees noCase front (s ++ s')) :
    ∃ taken more, front = taken ++ more ∧ Agrees noCase taken s ∧ Agrees noCase more s' := by
  refine ⟨front.take s.length, front.drop s.length, (List.take_append_drop _ _).symm, ?_, ?_⟩
  · exact List.forall₂_take_append front s s' h
  · exact List.forall₂_drop_append front s s' h

/-- There is one front of a text that agrees with a word. -/
theorem Text.Agrees.front_unique {noCase : Bool} {front front' after after' s : Text}
    (h : Agrees noCase front s) (h' : Agrees noCase front' s)
    (he : front ++ after = front' ++ after') : front = front' ∧ after = after' := by
  have hlen : front.length = front'.length := by
    rw [List.Forall₂.length_eq h, List.Forall₂.length_eq h']
  exact List.append_inj he hlen

namespace Literal

/-- A word takes the front of a text that agrees with it. -/
theorem scan_eq_some_iff {noCase : Bool} {s t : Text} {n : Nat} :
    scan noCase s t = some n ↔
      ∃ front after, t = front ++ after ∧ n = byteLength front ∧ Agrees noCase front s := by
  constructor
  · intro h
    induction s generalizing t n with
    | nil =>
      cases h
      exact ⟨[], t, rfl, rfl, .nil⟩
    | cons w ws ih =>
      cases t with
      | nil => cases h
      | cons c r =>
        rw [scan] at h
        split at h
        · rename_i hc
          obtain ⟨m, hm, rfl⟩ := Option.map_eq_some_iff.mp h
          obtain ⟨front, after, rfl, rfl, hfront⟩ := ih hm
          exact ⟨c :: front, after, rfl, rfl, .cons hc hfront⟩
        · cases h
  · rintro ⟨front, after, rfl, rfl, hfront⟩
    induction hfront with
    | nil => rfl
    | cons hc _ ih => rw [List.cons_append, scan, if_pos hc, ih, Option.map_some, byteLength_cons]

end Literal

/-- The map with a single word. -/
def Symbols.WordMap.single {α : Type} (s : String) (v : α) : WordMap α := Finmap.singleton s v

/-- A table with a single word finds this word, where it agrees with a front of the text. -/
theorem Symbols.Represents.scan_single {α : Type} {table : Symbols α} {s : String} {v : α}
    (h : table.Represents (.single s v)) (noCase : Bool) (t : Text) :
    table.scan noCase t = (Literal.scan noCase s.toList t).map fun n => (n, v) := by
  have hfind (word : Text) (w : α) : Trie.find? word table.root = some w ↔
      word = s.toList ∧ w = v := by
    rw [h.find?_root]
    by_cases hword : String.ofList word = s
    · subst hword
      have hsome : (WordMap.single (String.ofList word) v).lookup (String.ofList word) = some v :=
        Finmap.lookup_singleton_eq
      rw [hsome, Option.some.injEq, String.toList_ofList]
      exact ⟨fun he => ⟨rfl, he.symm⟩, fun he => he.2.symm⟩
    · have hnone : (WordMap.single s v).lookup (String.ofList word) = none :=
        Finmap.lookup_eq_none.mpr fun hmem => hword ((Finmap.mem_singleton _ _ _).mp hmem)
      rw [hnone]
      constructor
      · intro he
        cases he
      · rintro ⟨rfl, -⟩
        exact absurd String.ofList_toList hword
  have hmatches (n : Nat) (w : α) : Trie.Matches noCase t table.root n w ↔
      Literal.scan noCase s.toList t = some n ∧ w = v := by
    rw [Literal.scan_eq_some_iff]
    constructor
    · rintro ⟨front, after, word, ht, hn, hfront, hw⟩
      obtain ⟨rfl, rfl⟩ := (hfind word w).mp hw
      exact ⟨⟨front, after, ht, hn, hfront⟩, rfl⟩
    · rintro ⟨⟨front, after, ht, hn, hfront⟩, rfl⟩
      exact ⟨front, after, s.toList, ht, hn, hfront, (hfind _ _).mpr ⟨rfl, rfl⟩⟩
  cases hscan : table.scan noCase t with
  | none =>
    cases hword : Literal.scan noCase s.toList t with
    | none => rfl
    | some n => exact absurd ((hmatches n v).mpr ⟨hword, rfl⟩) (h.scan_eq_none_iff.mp hscan n v)
  | some b =>
    obtain ⟨n, w⟩ := b
    obtain ⟨hword, rfl⟩ := (hmatches n w).mp (h.scan_eq_some hscan).1
    rw [hword, Option.map_some]

-- ============================================================================
-- Taking a word
-- ============================================================================

/-- The terminal takes what the word takes. -/
def Terminal.Takes (t : Terminal) (s : Text) : Prop :=
  ∀ noCase rest, (t.scan noCase rest).map Prod.fst = Literal.scan noCase s rest

theorem Terminal.word_takes (s : Text) : (Terminal.word s).Takes s := by
  intro noCase rest
  rw [Terminal.scan, Option.map_map]
  exact Option.map_id'

theorem Terminal.string_takes (s : Text) : (Terminal.string s).Takes s := by
  intro noCase rest
  rw [Terminal.scan, Option.map_map]
  exact Option.map_id'

theorem Terminal.lit_takes (c : Char) : (Terminal.lit c).Takes [c] := by
  intro noCase rest
  cases rest with
  | nil => rfl
  | cons d r =>
    rw [Terminal.scan, Literal.scan]
    split
    · rfl
    · rfl

theorem Terminal.symbols_takes {ty : Ty} {table : Symbols Value} {s : String} {v : Value}
    (h : table.Represents (.single s v)) : (Terminal.symbols ty table).Takes s.toList := by
  intro noCase rest
  rw [Terminal.scan, h.scan_single, Option.map_map]
  exact Option.map_id'

/-- The outcome of taking the word from the place of the state: the cursor is behind the front that
    agrees with the word, or back at `start` if there is none. -/
inductive TakesWord (noCase : Bool) (s : Text) (start : Cursor) (st : State) : Outcome → Prop where
  | hit {front after : Text} (v : Value) (hrest : st.cursor.rest = front ++ after)
      (hfront : Agrees noCase front s) :
      TakesWord noCase s start st
        (.matched v (st.moveTo ⟨st.offset + byteLength front, after⟩))
  | miss (h : ∀ front after, st.cursor.rest = front ++ after → ¬ Agrees noCase front s) :
      TakesWord noCase s start st (.failed (st.moveTo start))

namespace TakesWord

variable {noCase : Bool} {s s' : Text} {start first : Cursor} {st : State} {o o' : Outcome}

theorem not_spent (h : TakesWord noCase s start st o) : ¬ o.Spent := by
  rcases h with ⟨v, hrest, hfront⟩ | hnone
  · exact Outcome.not_spent_matched _ _
  · exact Outcome.not_spent_failed _

theorem of_same (h : TakesWord noCase s start st o) (hsame : o'.Same o) :
    TakesWord noCase s start st o' := by
  rcases hsame with rfl | ⟨-, hspent⟩
  · exact h
  · exact absurd hspent h.not_spent

/-- Two outcomes of taking the word are the same up to the value. -/
theorem like (h : TakesWord noCase s start st o) (h' : TakesWord noCase s start st o') :
    o.Like (fun _ _ => True) o' := by
  left
  rcases h with @⟨front, after, v, hrest, hfront⟩ | hnone
  · rcases h' with @⟨front', after', w, hrest', hfront'⟩ | hnone'
    · obtain ⟨rfl, rfl⟩ := hfront.front_unique hfront' (hrest.symm.trans hrest')
      exact .matched trivial _
    · exact absurd hfront (hnone' front after hrest)
  · rcases h' with @⟨front', after', w, hrest', hfront'⟩ | hnone'
    · exact absurd hfront' (hnone front' after' hrest')
    · exact .failed _

/-- One word after the other is taken as one word. -/
theorem cases {k : Value → State → Outcome} (h : TakesWord noCase s first st o)
    (hk : ∀ v st1, o = .matched v st1 → TakesWord noCase s' start st1 (k v st1)) :
    TakesWord noCase (s ++ s') start st (o.cases k fun st1 => .failed (st1.moveTo start)) := by
  rcases h with @⟨front, after, v, hrest, hfront⟩ | hnone
  · have hnext := hk v _ rfl
    rw [Outcome.cases_matched]
    generalize k v _ = o' at hnext
    rcases hnext with @⟨front', after', w, hrest', hfront'⟩ | hnone'
    · have hwhole : st.cursor.rest = (front ++ front') ++ after' := by
        rw [hrest, List.append_assoc]
        exact congrArg (front ++ ·) hrest'
      have hhit : TakesWord noCase (s ++ s') start st _ :=
        .hit w hwhole (agrees_append hfront hfront')
      rwa [byteLength_append, ← Nat.add_assoc] at hhit
    · refine .miss fun whole rest hrest' hwhole => ?_
      obtain ⟨taken, more, rfl, htaken, hmore⟩ := hwhole.of_append
      rw [hrest, List.append_assoc] at hrest'
      obtain ⟨rfl, hafter⟩ := hfront.front_unique htaken hrest'
      exact hnone' more rest hafter hmore
  · refine .miss fun whole rest hrest hwhole => ?_
    obtain ⟨taken, more, rfl, htaken, -⟩ := hwhole.of_append
    exact hnone taken (more ++ rest) (by rw [hrest, List.append_assoc]) htaken

end TakesWord

/-- A terminal that takes what the word takes, behind what was skipped. -/
theorem Terminal.Takes.takeTerminal {t : Terminal} {s : Text} (h : t.Takes s) (noCase : Bool)
    (start : Cursor) (st : State) :
    TakesWord noCase s start st (Node.takeTerminal t noCase start st) := by
  have hword := h noCase st.cursor.rest
  cases hscan : t.scan noCase st.cursor.rest with
  | none =>
    rw [hscan, Option.map_none] at hword
    rw [Node.takeTerminal, hscan]
    refine .miss fun front after hrest hfront => ?_
    rw [Literal.scan_eq_some_iff.mpr ⟨front, after, hrest, rfl, hfront⟩] at hword
    cases hword
  | some b =>
    obtain ⟨n, v⟩ := b
    rw [hscan, Option.map_some] at hword
    obtain ⟨front, after, hrest, rfl, hfront⟩ := Literal.scan_eq_some_iff.mp hword.symm
    have hcursor : st.cursor.advance? (byteLength front) =
        some ⟨st.offset + byteLength front, after⟩ := by
      rw [Cursor.advance?, hrest, dropBytes?_append]
      rfl
    simp only [Node.takeTerminal, hscan, hcursor]
    exact .hit v hrest hfront

-- ============================================================================
-- Characters one after the other
-- ============================================================================

mutual

/-- The parser is made of fixed characters in a row, grouped in any way, that spell the word. -/
inductive Spelled : Grammar → Text → Prop where
  | lit (c : Char) : Spelled (Notation.lit c) [c]
  | seq {ps : List Grammar} {s : Text} (h : SpelledParts ps s) : Spelled (.seq ps) s

/-- The parts spell the word one after the other. -/
inductive SpelledParts : List Grammar → Text → Prop where
  | nil : SpelledParts [] []
  | cons {p : Grammar} {ps : List Grammar} {s s' : Text} (h : Spelled p s)
      (hs : SpelledParts ps s') : SpelledParts (p :: ps) (s ++ s')

end

section Spelled

variable {env : Env} {ctx : Ctx}

mutual

/-- Characters in a row, where nothing is skipped, take the word that they spell. -/
theorem Spelled.takesWord {g : Grammar} {s : Text} (h : Spelled g s)
    (hctx : ctx.skipping = false) (st : State) :
    TakesWord ctx.noCase s st.cursor st (answer env g ctx st) :=
  match h with
  | .lit c => by
    refine .of_same ?_ (answer_same ..)
    have hskip : Node.skipOver env (answer env) ctx st = .ok st := by
      rw [Node.skipOver, hctx]
    simp only [Notation.lit, Notation.term, Node.step, hskip, Node.afterSkip]
    exact (Terminal.lit_takes c).takeTerminal _ _ _
  | .seq hparts => by
    refine .of_same ?_ (answer_same ..)
    exact hparts.takesWord hctx [] st.cursor st

theorem SpelledParts.takesWord {ps : List Grammar} {s : Text} (h : SpelledParts ps s)
    (hctx : ctx.skipping = false) (slots : List Value) (start : Cursor) (st : State) :
    TakesWord ctx.noCase s start st (Node.seqLoop (answer env · ctx) start ps slots st) :=
  match h with
  | .nil => .hit _ (List.nil_append _).symm .nil
  | .cons hp hps => (hp.takesWord hctx st).cases fun _ st1 _ => hps.takesWord hctx _ start st1

end

end Spelled

-- ============================================================================
-- Ways to write a word
-- ============================================================================

/-- The characters of a word in a row. -/
def Notation.spelling : Text → Grammar
  | [] => .seq []
  | c :: cs => cs.foldl (fun p d => andThen p (lit d)) (lit c)

theorem SpelledParts.append {ps qs : List Grammar} {s s' : Text} (h : SpelledParts ps s)
    (h' : SpelledParts qs s') : SpelledParts (ps ++ qs) (s ++ s') :=
  match h with
  | .nil => h'
  | .cons hp hps => by
    rw [List.append_assoc]
    exact .cons hp (hps.append h')

theorem SpelledParts.singleton {p : Grammar} {s : Text} (h : Spelled p s) : SpelledParts [p] s := by
  have hparts := SpelledParts.cons h .nil
  rwa [List.append_nil] at hparts

/-- Written one after the other, two parsers spell what they spell in a row. -/
theorem Spelled.andThen {p q : Grammar} {s s' : Text} (h : Spelled p s) (h' : Spelled q s') :
    Spelled (Notation.andThen p q) (s ++ s') := by
  have hpair : Spelled (.seq [p, q]) (s ++ s') := .seq (.cons h (.singleton h'))
  rcases h with c | hparts
  · exact hpair
  · rw [Notation.andThen]
    split
    · exact .seq (hparts.append (.singleton h'))
    · exact hpair

/-- The characters of a word in a row spell it. -/
theorem Spelled.spelling (s : Text) : Spelled (Notation.spelling s) s := by
  cases s with
  | nil => exact .seq .nil
  | cons c cs =>
    suffices h : ∀ (p : Grammar) (s : Text), Spelled p s →
        Spelled (cs.foldl (fun p d => Notation.andThen p (Notation.lit d)) p) (s ++ cs) from
      h _ [c] (.lit c)
    induction cs with
    | nil =>
      intro p s hp
      rwa [List.append_nil]
    | cons d cs ih =>
      intro p s hp
      have hnext := ih _ _ (hp.andThen (.lit d))
      rwa [List.append_assoc] at hnext

section Ways

variable {env : Env} {ctx : Ctx} {st : State} {s : Text}

/-- Two terminals that take what the word takes. -/
theorem Terminal.Takes.like {t t' : Terminal} (h : t.Takes s) (h' : t'.Takes s) :
    (Node.step env (answer env) (.terminal t) ctx st).Like (fun _ _ => True)
      (Node.step env (answer env) (.terminal t') ctx st) := by
  simp only [Node.step]
  cases Node.skipOver env (answer env) ctx st with
  | error hlt => exact .inl (.stopped hlt)
  | ok st1 => exact (h.takeTerminal ..).like (h'.takeTerminal ..)

/-- A terminal that takes what the word takes, and a lexeme that spells the word. -/
theorem Terminal.Takes.lexeme_like {t : Terminal} (h : t.Takes s) {g : Grammar}
    (hg : Spelled g s) :
    (Node.step env (answer env) (.terminal t) ctx st).Like (fun _ _ => True)
      (Node.step env (answer env) (.lexeme g) ctx st) := by
  simp only [Node.step, Node.lexeme]
  cases Node.skipOver env (answer env) ctx st with
  | error hlt => exact .inl (.stopped hlt)
  | ok st1 =>
    refine (h.takeTerminal ctx.noCase st.cursor st1).like ?_
    -- a lexeme gives back what was skipped, like the empty word after its subject
    have hword : TakesWord ctx.noCase s st1.cursor st1
        (answer env g { ctx with skipping := false } st1) :=
      @Spelled.takesWord env { ctx with skipping := false } g s hg rfl st1
    have hrest : TakesWord ctx.noCase (s ++ []) st.cursor st1 _ :=
      hword.cases fun v st2 _ => .hit v rfl .nil
    rwa [List.append_nil] at hrest

/-- A word that is yielded is yielded as it was written. -/
theorem Terminal.scan_string {noCase : Bool} {rest front after : Text}
    (hrest : rest = front ++ after) (hfront : Agrees noCase front s) :
    (Terminal.string s).scan noCase rest =
      some (byteLength front, .text (String.ofList front)) := by
  have hscan : Literal.scan noCase s rest = some (byteLength front) :=
    Literal.scan_eq_some_iff.mpr ⟨front, after, hrest, rfl, hfront⟩
  rw [Terminal.scan, hscan, hrest, Option.map_some, takeBytes?_append, Option.getD_some]

/-- From the place that skipping leads to, the word is taken or not. -/
theorem answers_string {q : Cursor} (hq : SkipsTo env ctx st q) :
    (∃ front after st', q.rest = front ++ after ∧ Agrees ctx.noCase front s ∧
      st'.cursor = ⟨q.offset + byteLength front, after⟩ ∧
      Answers env (.terminal (.string s)) ctx st (.matched (.text (String.ofList front)) st')) ∨
    (∀ front after, q.rest = front ++ after → ¬ Agrees ctx.noCase front s) ∧
      ∃ st', st'.cursor = st.cursor ∧ Answers env (.terminal (.string s)) ctx st (.failed st') := by
  obtain ⟨n, st1, hskip, rfl⟩ := hq
  by_cases hfits : ∃ front after, st1.cursor.rest = front ++ after ∧ Agrees ctx.noCase front s
  · obtain ⟨front, after, hrest, hfront⟩ := hfits
    have hparse := parse_terminal_of_some hskip (Terminal.scan_string hrest hfront) hrest rfl
    exact .inl ⟨front, after, _, hrest, hfront, rfl, Outcome.not_spent_matched _ _, n + 1, hparse⟩
  · have hnone : ∀ front after, st1.cursor.rest = front ++ after →
        ¬ Agrees ctx.noCase front s :=
      fun front after hrest hfront => hfits ⟨front, after, hrest, hfront⟩
    have hscan : (Terminal.string s).scan ctx.noCase st1.cursor.rest = none := by
      rw [Terminal.scan, Option.map_eq_none_iff, Option.eq_none_iff_forall_ne_some]
      intro len hlen
      obtain ⟨front, after, hrest, -, hfront⟩ := Literal.scan_eq_some_iff.mp hlen
      exact hnone front after hrest hfront
    have hparse := parse_terminal_of_none hskip hscan
    exact .inr ⟨hnone, st1.moveTo st.cursor, rfl, Outcome.not_spent_failed _, n + 1, hparse⟩

/-- A word that is yielded is the text between the place that skipping leads to and the end. -/
theorem answers_string_matched {w : Value} {st' : State}
    (h : Answers env (.terminal (.string s)) ctx st (.matched w st')) :
    ∃ q front, SkipsTo env ctx st q ∧ q.rest = front ++ st'.cursor.rest ∧
      st'.offset = q.offset + byteLength front ∧ w = .text (String.ofList front) := by
  -- an answer means that skipping has led somewhere
  obtain ⟨-, n, hn⟩ := h
  cases n with
  | zero => cases hn
  | succ n =>
    cases hskip : Node.skipOver env (parse env n) ctx st with
    | error hlt =>
      simp only [parse_succ, Node.step, hskip, Node.afterSkip, reduceCtorEq] at hn
    | ok st1 =>
      have hq : SkipsTo env ctx st st1.cursor := ⟨n, st1, hskip, rfl⟩
      have hanswers : Answers env (.terminal (.string s)) ctx st (.matched w st') :=
        ⟨Outcome.not_spent_matched _ _, n + 1, hn⟩
      rcases answers_string hq with ⟨front, after, u, hrest, -, hu, hmatch⟩ | ⟨-, u, -, hmiss⟩
      · cases hmatch.unique hanswers
        exact ⟨st1.cursor, front, hq, by rw [hrest, hu], congrArg Cursor.offset hu, rfl⟩
      · cases hmiss.unique hanswers

end Ways

open Notation in
/-- The four ways to write a word agree, in any context and state: they match together and fail
    together, and leave the same state. From the place that skipping leads to, the word matches if
    a front of the text agrees with it character by character; the cursor is then behind this front,
    and the front is what is yielded. It fails if there is none, and whatever it yields is the text
    between the place that skipping leads to and the place it has come to. -/
theorem literals_agree (env : Env) (ctx : Ctx) (st : State) (s : String) (g : Grammar)
    (hg : Spelled g s.toList) (ty : Ty) (v : Value) (steps : List (Symbols.Edit Value))
    (hkey : Symbols.WordMap.built steps = .single s v) :
    Expands env ctx st (fun _ _ => True) (word s) (string s) ∧
    Expands env ctx st (fun _ _ => True) (word s) (term (.symbols ty (Symbols.built steps))) ∧
    Expands env ctx st (fun _ _ => True) (word s) (lexeme g) ∧
    (∀ q, SkipsTo env ctx st q →
      (∃ front after st', q.rest = front ++ after ∧ Agrees ctx.noCase front s.toList ∧
        st'.cursor = ⟨q.offset + byteLength front, after⟩ ∧
        Answers env (string s) ctx st (.matched (.text (String.ofList front)) st')) ∨
      (∀ front after, q.rest = front ++ after → ¬ Agrees ctx.noCase front s.toList) ∧
        ∃ st', st'.cursor = st.cursor ∧ Answers env (string s) ctx st (.failed st')) ∧
    ∀ w st', Answers env (string s) ctx st (.matched w st') → ∃ q front, SkipsTo env ctx st q ∧
      q.rest = front ++ st'.cursor.rest ∧ st'.offset = q.offset + byteLength front ∧
      w = .text (String.ofList front) := by
  have htable : (Symbols.built steps).Represents (.single s v) := hkey ▸ .built steps
  have hword : (Terminal.word s.toList).Takes s.toList := Terminal.word_takes _
  refine ⟨?_, ?_, ?_, ?_, ?_⟩
  · exact expands_of_like (hword.like (Terminal.string_takes _))
  · exact expands_of_like (hword.like (Terminal.symbols_takes htable))
  · exact expands_of_like (hword.lexeme_like hg)
  · exact fun q hq => answers_string hq
  · exact fun w st' h => answers_string_matched h

def kilobytes : Env := .of "  \u212aB;".toList fun _ => none

def beforeKilobytes : State := { cursor := .start kilobytes.source }

def kilobyteTable : List (Symbols.Edit Value) := [.insert "kb" (.int 1)]

open Notation in
/-- Blanks are skipped, and case is ignored. -/
def looseUnits : Ctx := { skipper := some space, noCase := true }

open Notation in
/-- The sign of the kelvin is a letter k of three bytes, so that the word of two bytes takes four
    behind the blanks, however it is written. -/
theorem literals_agree_kelvin :
    Spelled (spelling "kb".toList) "kb".toList ∧
    Symbols.WordMap.built kilobyteTable = .single "kb" (.int 1) ∧
    SkipsTo kilobytes looseUnits beforeKilobytes ⟨2, "\u212aB;".toList⟩ ∧
    ∃ st', st'.cursor = ⟨6, [';']⟩ ∧
      Answers kilobytes (string "kb") looseUnits beforeKilobytes
        (.matched (.text "\u212aB") st') ∧
      ∃ w, Answers kilobytes (lexeme (spelling "kb".toList)) looseUnits beforeKilobytes
        (.matched w st') := by
  have hg : Spelled (spelling "kb".toList) "kb".toList := .spelling _
  have hkey : Symbols.WordMap.built kilobyteTable = .single "kb" (.int 1) := rfl
  have hskip : SkipsTo kilobytes looseUnits beforeKilobytes ⟨2, "\u212aB;".toList⟩ :=
    ⟨1, _, rfl, rfl⟩
  have hagrees : Agrees true "\u212aB".toList "kb".toList :=
    .cons (by decide) (.cons (by decide) .nil)
  obtain ⟨hstring, -, hlexeme, hthere, -⟩ := literals_agree kilobytes looseUnits beforeKilobytes
    "kb" (spelling "kb".toList) hg .unused (.int 1) kilobyteTable hkey
  rcases hthere _ hskip with ⟨front, after, st', hrest, hfront, hst', hmatch⟩ | ⟨hnone, -⟩
  · obtain ⟨rfl, rfl⟩ := hagrees.front_unique hfront hrest
    obtain ⟨o, ho, hsame⟩ := hstring.2 _ hmatch
    cases hsame with
    | matched _ _ =>
      obtain ⟨o', ho', hsame'⟩ := hlexeme.1 _ ho
      cases hsame' with
      | @matched _ w _ _ =>
        rw [String.ofList_toList] at hmatch
        exact ⟨hg, hkey, hskip, st', hst', hmatch, w, ho'⟩
  · exact absurd hagrees (hnone _ [';'] rfl)

end Peg
