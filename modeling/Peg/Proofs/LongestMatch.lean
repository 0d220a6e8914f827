/-
  Peg.Proofs.LongestMatch

  The search of a table finds the longest word. What it finds is said by words and
  the fronts of the text alone: with case, the longest front that is a word of the
  table, and its value; without case, the longest front that some word of the table
  agrees with character by character, and the value of such a word. The order in
  which a search visits the branches can decide between such words, but not how
  long they are.
-/
import Peg.Proofs.SymbolTable

namespace Peg

namespace Text

/-- The texts have the same letters, whatever the case of each. -/
def SameLetters (s t : Text) : Prop := List.Forall₂ (fun c k => lowerCase c = lowerCase k) s t

/-- The texts agree character by character, up to case if case is ignored. -/
def Agrees (noCase : Bool) (s t : Text) : Prop :=
  List.Forall₂ (fun c k => agree noCase c k = true) s t

theorem agrees_true_iff {s t : Text} : Agrees true s t ↔ SameLetters s t := by
  have hagree : ∀ c k, agree true c k = true ↔ lowerCase c = lowerCase k := by
    intro c k
    simp only [agree, sameLetter, if_true, Bool.or_eq_true, beq_iff_eq]
    exact or_iff_right_of_imp fun h => congrArg lowerCase h
  simp only [Agrees, SameLetters, hagree]

theorem agrees_false_iff {s t : Text} : Agrees false s t ↔ s = t := by
  have hagree : ∀ c k, agree false c k = true ↔ c = k := by
    intro c k
    simp [agree]
  simp only [Agrees, hagree, List.forall₂_eq_eq_eq]

end Text

open Text

variable {α : Type}

namespace Trie

/-! ## What is found is the value of a word -/

/-- A word of the tree with this value agrees with the first bytes of the text. -/
def Matches (noCase : Bool) (rest : Text) (t : Trie α) (n : Nat) (v : α) : Prop :=
  ∃ front after word, rest = front ++ after ∧ n = byteLength front ∧ Agrees noCase front word ∧
    find? word t = some v

section Matches

variable {noCase : Bool} {rest r : Text} {t u : Trie α} {c k : Char} {n : Nat} {v : α}

theorem matches_here (h : t.value = some v) : Matches noCase rest t 0 v :=
  ⟨[], rest, [], rfl, rfl, .nil, h⟩

theorem Matches.deeper (h : Matches noCase r u n v) (ht : t.Proper) (hu : (k, u) ∈ t.children)
    (hk : agree noCase c k = true) : Matches noCase (c :: r) t (c.utf8Size + n) v := by
  obtain ⟨front, after, word, rfl, rfl, hword, hv⟩ := h
  refine ⟨c :: front, after, k :: word, rfl, rfl, .cons hk hword, ?_⟩
  rw [find?_cons, child?_of_mem ht.keys hu]
  exact hv

/-- The words that a search comes by are those that match. -/
theorem spells_iff (ht : t.Proper) : Spells noCase rest t n ↔ ∃ v, Matches noCase rest t n v := by
  constructor
  · intro h
    induction h with
    | here hv =>
      obtain ⟨v, hv⟩ := Option.isSome_iff_exists.mp hv
      exact ⟨v, matches_here hv⟩
    | deeper hu hk _ ih =>
      obtain ⟨v, hm⟩ := ih (ht.child hu)
      exact ⟨v, hm.deeper ht hu hk⟩
  · rintro ⟨v, front, after, word, rfl, rfl, hword, hv⟩
    -- along the word, a branch for each of its characters
    induction hword generalizing t with
    | nil => exact .here (Option.isSome_of_eq_some hv)
    | cons hk _ ih =>
      obtain ⟨u, hu, hv⟩ := Option.bind_eq_some_iff.mp hv
      have hu := mem_of_child? hu
      exact .deeper hu hk (ih (ht.child hu) hv)

/-- A word that ends at the place at hand is the best so far, or what was best before is. -/
theorem invariant_here {P : Option (Nat × α) → Prop} {best : Option (Nat × α)} {consumed : Nat}
    (hbest : P best) (hvalue : ∀ v, t.value = some v → P (some (consumed, v))) :
    P (match t.value with
      | some v => if best.all (fun b => b.1 ≤ consumed) then some (consumed, v) else best
      | none => best) := by
  split
  · rename_i v hv
    split
    · exact hvalue v hv
    · exact hbest
  · exact hbest

/-- The branch of a character, if there is one, goes on from what is best. -/
theorem invariant_child {P : Option (Nat × α) → Prop} {mid : Option (Nat × α)}
    {find : Trie α → Option (Nat × α)} (hmid : P mid)
    (hfind : ∀ u, (c, u) ∈ t.children → P (find u)) :
    P (match child? c t.children with
      | some u => find u
      | none => mid) := by
  split
  · rename_i u hu
    exact hfind u (mem_of_child? hu)
  · exact hmid

/-- What holds of the best so far, and of every word that matches, holds of what a search finds. -/
theorem longest_invariant {P : Option (Nat × α) → Prop} (rest : Text) (consumed : Nat)
    {t : Trie α} (ht : t.Proper) {best : Option (Nat × α)} (hbest : P best)
    (hmatch : ∀ n v, Matches noCase rest t n v → P (some (consumed + n, v))) :
    P (longest noCase rest consumed t best) := by
  induction rest generalizing consumed t best with
  | nil =>
    rw [longest]
    exact invariant_here hbest fun v hv => hmatch 0 v (matches_here hv)
  | cons c r ih =>
    have hhere := invariant_here (t := t) hbest fun v hv => hmatch 0 v (matches_here hv)
    have hbelow : ∀ k u, (k, u) ∈ t.children → agree noCase c k = true → ∀ mid, P mid →
        P (longest noCase r (consumed + c.utf8Size) u mid) := by
      intro k u hu hk mid hmid
      refine ih (consumed + c.utf8Size) (ht.child hu) hmid fun n v hm => ?_
      rw [Nat.add_assoc]
      exact hmatch _ v (hm.deeper ht hu hk)
    rw [longest]
    dsimp only
    have hchild := invariant_child hhere fun u hu => hbelow c u hu (agree_self noCase c) _ hhere
    split
    · -- without case the branches that differ in case come after the exact one
      refine List.foldlRecOn _ _ hchild fun mid hmid s hs => ?_
      split
      · rename_i hnoCase hk
        exact hbelow s.1 s.2 hs (agree_iff.mpr (.inr ⟨hnoCase, hk⟩)) mid hmid
      · exact hmid
    · exact hchild

/-- What a search finds from the start is the value of a word that matches. -/
theorem matches_of_longest (ht : t.Proper) (h : longest noCase rest 0 t none = some (n, v)) :
    Matches noCase rest t n v := by
  have hfound : ∀ b, longest noCase rest 0 t none = some b → Matches noCase rest t b.1 b.2 := by
    refine longest_invariant (P := fun found => ∀ b, found = some b → Matches noCase rest t b.1 b.2)
      rest 0 ht ?_ fun m w hm b hb => ?_
    · intro b hb
      cases hb
    · cases hb
      rwa [Nat.zero_add]
  exact hfound _ h

end Matches

/-! ## The order of the branches -/

theorem Branchwise.keys {cs ds : List (Char × Trie α)} (h : Branchwise cs ds) :
    ds.map Prod.fst = cs.map Prod.fst := by
  induction cs generalizing ds with
  | nil =>
    cases h
    rfl
  | cons s cs ih =>
    cases h with
    | cons branch rest => rw [List.map_cons, List.map_cons, ih rest]

/-- Each branch is like one of the branches behind the same character. -/
theorem Branchwise.exists_left {cs ds : List (Char × Trie α)} (h : Branchwise cs ds) {c : Char}
    {u : Trie α} (hu : (c, u) ∈ ds) : ∃ t, (c, t) ∈ cs ∧ Alike t u := by
  induction cs generalizing ds with
  | nil =>
    cases h
    cases hu
  | cons s cs ih =>
    cases h with
    | @cons d t w _ ds branch rest =>
      obtain he | hu := List.mem_cons.mp hu
      · cases he
        exact ⟨t, List.mem_cons_self, branch⟩
      · obtain ⟨t', ht', halike⟩ := ih rest hu
        exact ⟨t', List.mem_cons_of_mem _ ht', halike⟩

/-- A tree with its branches in another order is proper as well and has the same words. -/
theorem Alike.find?_eq {t u : Trie α} (ht : t.Proper) (h : Alike t u) :
    u.Proper ∧ ∀ w, find? w u = find? w t := by
  -- on what it is to be proper, as the branches of a proper tree are proper
  induction ht generalizing u with
  | @node v cs hkeys hbelow ih =>
    cases h with
    | @node _ _ ds es branches order =>
      have hkeys' : (es.map Prod.fst).Perm (cs.map Prod.fst) :=
        branches.keys ▸ (order.map Prod.fst).symm
      have hnodup : (es.map Prod.fst).Nodup := hkeys'.nodup_iff.mpr hkeys
      have hleft : ∀ c u, (c, u) ∈ es → ∃ t, (c, t) ∈ cs ∧ Alike t u :=
        fun c u hu => branches.exists_left (order.mem_iff.mpr hu)
      refine ⟨.node hnodup fun c u hu => ?_, fun w => ?_⟩
      · obtain ⟨t, ht, halike⟩ := hleft c u hu
        exact (ih c t ht halike).1
      · cases w with
        | nil => rfl
        | cons c w =>
          rw [find?_cons, find?_cons, children_node, children_node]
          cases hu : child? c es with
          | some u =>
            obtain ⟨t, ht, halike⟩ := hleft c u (mem_of_child? hu)
            rw [child?_of_mem hkeys ht, Option.bind_some, Option.bind_some, (ih c t ht halike).2]
          | none =>
            have hc : c ∉ cs.map Prod.fst := by
              rw [← hkeys'.mem_iff]
              intro hc
              obtain ⟨⟨_, u⟩, hmem, rfl⟩ := List.mem_map.mp hc
              rw [child?_of_mem hnodup hmem] at hu
              cases hu
            rw [child?_eq_none hc]

/-- The order of the branches does not tell how long a word is found. -/
theorem Alike.longest_length {t u : Trie α} (ht : t.Proper) (h : Alike t u) (noCase : Bool)
    (rest : Text) :
    (longest noCase rest 0 u none).map Prod.fst = (longest noCase rest 0 t none).map Prod.fst := by
  obtain ⟨hu, hfind⟩ := h.find?_eq ht
  refine (longest_furthest rest 0 ht .none).length_eq ((longest_furthest rest 0 hu .none).congr ?_)
  intro n
  simp only [spells_iff ht, spells_iff hu, Matches, hfind]

end Trie

namespace Symbols

/-! ## The longest word -/

section Represents

variable {s : Symbols α} {m : WordMap α} {noCase : Bool} {t : Text} {n : Nat} {v : α}

theorem Represents.find?_root (h : s.Represents m) (word : Text) :
    s.root.find? word = m.lookup (String.ofList word) := by
  rw [← h.find, find?, String.toList_ofList]

/-- With case, what matches is a word of the map. -/
theorem Represents.matches_false_iff (h : s.Represents m) :
    Trie.Matches false t s.root n v ↔ ∃ front after, t = front ++ after ∧ n = byteLength front ∧
      m.lookup (String.ofList front) = some v := by
  constructor
  · rintro ⟨front, after, word, ht, hn, hword, hv⟩
    obtain rfl := agrees_false_iff.mp hword
    exact ⟨front, after, ht, hn, (h.find?_root front).symm.trans hv⟩
  · rintro ⟨front, after, ht, hn, hv⟩
    exact ⟨front, after, front, ht, hn, agrees_false_iff.mpr rfl, (h.find?_root front).trans hv⟩

/-- Without case, what matches has the letters of a word of the map. -/
theorem Represents.matches_true_iff (h : s.Represents m) :
    Trie.Matches true t s.root n v ↔ ∃ front after word, t = front ++ after ∧
      n = byteLength front ∧ SameLetters front word.toList ∧ m.lookup word = some v := by
  constructor
  · rintro ⟨front, after, word, ht, hn, hword, hv⟩
    refine ⟨front, after, String.ofList word, ht, hn, ?_, (h.find?_root word).symm.trans hv⟩
    rw [String.toList_ofList]
    exact agrees_true_iff.mp hword
  · rintro ⟨front, after, word, ht, hn, hword, hv⟩
    refine ⟨front, after, word.toList, ht, hn, agrees_true_iff.mpr hword, ?_⟩
    rw [h.find?_root, String.ofList_toList, hv]

/-- A word that is found matches, and no word that matches is longer. -/
theorem Represents.scan_eq_some (h : s.Represents m) (hscan : s.scan noCase t = some (n, v)) :
    Trie.Matches noCase t s.root n v ∧ ∀ k w, Trie.Matches noCase t s.root k w → k ≤ n := by
  refine ⟨Trie.matches_of_longest h.proper hscan, fun k w hk => ?_⟩
  obtain ⟨b, hb, hle⟩ :=
    (scan_furthest h.proper noCase t).greatest k ((Trie.spells_iff h.proper).mpr ⟨w, hk⟩)
  rw [hscan] at hb
  cases hb
  exact hle

/-- Nothing is found exactly if no word matches. -/
theorem Represents.scan_eq_none_iff (h : s.Represents m) :
    s.scan noCase t = none ↔ ∀ k w, ¬ Trie.Matches noCase t s.root k w := by
  constructor
  · intro hscan k w hk
    obtain ⟨b, hb, -⟩ :=
      (scan_furthest h.proper noCase t).greatest k ((Trie.spells_iff h.proper).mpr ⟨w, hk⟩)
    rw [hscan] at hb
    cases hb
  · intro hnone
    cases hscan : s.scan noCase t with
    | none => rfl
    | some b => exact absurd (h.scan_eq_some hscan).1 (hnone b.1 b.2)

/-- With case, what is found is the longest word of the map at the front of the text. -/
theorem Represents.scan_false_eq_some_iff (h : s.Represents m) :
    s.scan false t = some (n, v) ↔ ∃ front after, t = front ++ after ∧ n = byteLength front ∧
      m.lookup (String.ofList front) = some v ∧
      ∀ longer, longer <+: t → String.ofList longer ∈ m → byteLength longer ≤ n := by
  have hmatches : ∀ longer, longer <+: t → String.ofList longer ∈ m →
      ∃ w, Trie.Matches false t s.root (byteLength longer) w := by
    rintro longer ⟨after, rfl⟩ hlonger
    obtain ⟨w, hw⟩ := Finmap.mem_iff.mp hlonger
    exact ⟨w, h.matches_false_iff.mpr ⟨longer, after, rfl, rfl, hw⟩⟩
  constructor
  · intro hscan
    obtain ⟨hmatch, hgreatest⟩ := h.scan_eq_some hscan
    obtain ⟨front, after, ht, hn, hv⟩ := h.matches_false_iff.mp hmatch
    refine ⟨front, after, ht, hn, hv, fun longer hpre hlonger => ?_⟩
    obtain ⟨w, hw⟩ := hmatches longer hpre hlonger
    exact hgreatest _ w hw
  · rintro ⟨front, after, ht, rfl, hv, hgreatest⟩
    have hmatch := h.matches_false_iff.mpr ⟨front, after, ht, rfl, hv⟩
    cases hscan : s.scan false t with
    | none => exact absurd hmatch (h.scan_eq_none_iff.mp hscan _ v)
    | some b =>
      -- both words have the same length, and so they are the same word
      obtain ⟨k, w⟩ := b
      obtain ⟨hmatch', hgreatest'⟩ := h.scan_eq_some hscan
      obtain ⟨front', after', ht', rfl, hw⟩ := h.matches_false_iff.mp hmatch'
      have hle := hgreatest front' ⟨after', ht'.symm⟩ (Finmap.mem_iff.mpr ⟨w, hw⟩)
      have hge := hgreatest' _ v hmatch
      obtain ⟨rfl, -⟩ := append_inj_of_byteLength (ht'.symm.trans ht) (Nat.le_antisymm hle hge)
      rw [hv] at hw
      cases hw
      rfl

theorem Represents.scan_false_eq_none_iff (h : s.Represents m) :
    s.scan false t = none ↔ ∀ front, front <+: t → String.ofList front ∉ m := by
  rw [h.scan_eq_none_iff]
  simp only [h.matches_false_iff, Finmap.mem_iff]
  constructor
  · rintro hnone front ⟨after, rfl⟩ ⟨v, hv⟩
    exact hnone _ v ⟨front, after, rfl, rfl, hv⟩
  · rintro hnone _ v ⟨front, after, rfl, rfl, hv⟩
    exact hnone front ⟨after, rfl⟩ ⟨v, hv⟩

/-- Without case, what is found is as long as the longest front of the text that has the letters of
    a word of the map, and it is the value of such a word. -/
theorem Represents.scan_true_eq_some (h : s.Represents m) (hscan : s.scan true t = some (n, v)) :
    (∃ front after word, t = front ++ after ∧ n = byteLength front ∧
      SameLetters front word.toList ∧ m.lookup word = some v) ∧
    ∀ front word, front <+: t → SameLetters front word.toList → word ∈ m →
      byteLength front ≤ n := by
  obtain ⟨hmatch, hgreatest⟩ := h.scan_eq_some hscan
  refine ⟨h.matches_true_iff.mp hmatch, ?_⟩
  rintro front word ⟨after, rfl⟩ hsame hword
  obtain ⟨w, hw⟩ := Finmap.mem_iff.mp hword
  exact hgreatest _ w (h.matches_true_iff.mpr ⟨front, after, word, rfl, rfl, hsame, hw⟩)

theorem Represents.scan_true_eq_none_iff (h : s.Represents m) :
    s.scan true t = none ↔
      ∀ front word, front <+: t → SameLetters front word.toList → word ∉ m := by
  rw [h.scan_eq_none_iff]
  simp only [h.matches_true_iff, Finmap.mem_iff]
  constructor
  · rintro hnone front word ⟨after, rfl⟩ hsame ⟨v, hv⟩
    exact hnone _ v ⟨front, after, word, rfl, rfl, hsame, hv⟩
  · rintro hnone _ v ⟨front, after, word, rfl, rfl, hsame, hv⟩
    exact hnone front word ⟨after, rfl⟩ hsame ⟨v, hv⟩

end Represents

/-- The search of a table finds the longest match, whatever the history of the table. With case, it
    finds the longest word of the table that the text starts with, and its value, or nothing if the
    text starts with no word. Without case, it finds the longest front of the text that has the
    letters of some word, character by character, and the value of such a word, or nothing if no
    front has the letters of a word. How long that is does not depend on the order of the branches
    in the tree. -/
theorem scan_longest_match (steps : List (Edit α)) (t : Text) :
    (∀ n v, (built steps).scan false t = some (n, v) ↔ ∃ front after, t = front ++ after ∧
      n = byteLength front ∧ (WordMap.built steps).lookup (String.ofList front) = some v ∧
      ∀ longer, longer <+: t → String.ofList longer ∈ WordMap.built steps →
        byteLength longer ≤ n) ∧
    ((built steps).scan false t = none ↔
      ∀ front, front <+: t → String.ofList front ∉ WordMap.built steps) ∧
    (∀ n v, (built steps).scan true t = some (n, v) →
      (∃ front after word, t = front ++ after ∧ n = byteLength front ∧
        SameLetters front word.toList ∧ (WordMap.built steps).lookup word = some v) ∧
      ∀ front word, front <+: t → SameLetters front word.toList → word ∈ WordMap.built steps →
        byteLength front ≤ n) ∧
    ((built steps).scan true t = none ↔ ∀ front word, front <+: t →
      SameLetters front word.toList → word ∉ WordMap.built steps) ∧
    ∀ root, (built steps).root.Alike root → ∀ noCase,
      (root.longest noCase t 0 none).map Prod.fst =
        ((built steps).scan noCase t).map Prod.fst := by
  have h := Represents.built steps
  exact ⟨fun _ _ => h.scan_false_eq_some_iff, h.scan_false_eq_none_iff,
    fun _ _ hscan => h.scan_true_eq_some hscan, h.scan_true_eq_none_iff,
    fun _ halike noCase => halike.longest_length h.proper noCase t⟩

/-- Units of one and of two letters. -/
def units : List (Edit Nat) := [.ofList [("k", 1), ("kg", 2), ("g", 3), ("", 0)]]

/-- The same units, with the branches of the tree the other way round. -/
def unitsReversed : List (Edit Nat) :=
  [.insert "g" 3, .insert "kg" 2, .insert "k" 1, .insert "" 0]

/-- The sign of the kelvin is a letter k of three bytes, so that `kg` takes four bytes. -/
theorem scan_longest_match_kelvin :
    ((built units).scan true "\u212aG!".toList = some (4, 2) ∧
      ∀ front word, front <+: "\u212aG!".toList → SameLetters front word.toList →
        word ∈ WordMap.built units → byteLength front ≤ 4) ∧
    ((built units).root.Alike (built unitsReversed).root ∧
      ((built unitsReversed).root.longest true "\u212aG!".toList 0 none).map Prod.fst =
        ((built units).scan true "\u212aG!".toList).map Prod.fst) := by
  have hscan : (built units).scan true "\u212aG!".toList = some (4, 2) := by decide +kernel
  have hsame : WordMap.built units = WordMap.built unitsReversed := by decide
  have halike : (built units).root.Alike (built unitsReversed).root :=
    ((Represents.built units).alike (hsame ▸ Represents.built unitsReversed)).2
  have h := scan_longest_match units "\u212aG!".toList
  exact ⟨⟨hscan, (h.2.2.1 4 2 hscan).2⟩, halike, h.2.2.2.2 _ halike true⟩

end Symbols

end Peg
