/-
  Peg.Proofs.ExactSpelling

  Words that differ in case only, in a search without case. The search comes by the
  words that agree with the front of the text one after the other, among those of one
  length by the exactly spelled one first, and keeps the last of the longest ones. So
  an exactly spelled word yields its own value only if no other word of the table has
  the same letters; if there are others, one of them takes its place, whatever the
  order of the branches.
-/
import Peg.Proofs.LongestMatch

namespace Peg

open Text

variable {α : Type}

namespace Trie

/-! ## The order of a search -/

/-- The words of a tree that agree with the front of a text, in the order in which a search comes by
    them: the one that ends here, those behind the very character, and without case those behind the
    characters that differ from it in case. -/
def visited (noCase : Bool) : Text → Trie α → List (Text × α)
  | [], t => (t.value.map ([], ·)).toList
  | c :: r, t =>
    (t.value.map ([], ·)).toList ++
      (((child? c t.children).map (visited noCase r)).getD []).map (fun s => (c :: s.1, s.2)) ++
      if noCase then
        t.children.flatMap fun (k, u) =>
          if k != c && lowerCase k == lowerCase c then
            (visited noCase r u).map (fun s => (k :: s.1, s.2))
          else []
      else []

/-- How many bytes of a text a word takes that agrees with its front. -/
def reach (rest : Text) (consumed : Nat) (s : Text × α) : Nat :=
  consumed + byteLength (rest.take s.1.length)

/-- A word that a search comes by replaces one that is not longer. -/
def offer (rest : Text) (consumed : Nat) (best : Option (Nat × α)) (s : Text × α) :
    Option (Nat × α) :=
  if best.all (fun b => b.1 ≤ reach rest consumed s) then some (reach rest consumed s, s.2)
  else best

section Search

variable {noCase : Bool} {rest r : Text} {consumed n : Nat} {c k : Char} {t u : Trie α}

theorem reach_cons (s : Text × α) :
    reach (c :: r) consumed (k :: s.1, s.2) = reach r (consumed + c.utf8Size) s := by
  rw [reach, reach, List.length_cons, List.take_succ_cons, byteLength_cons, Nat.add_assoc]

theorem offer_cons (best : Option (Nat × α)) (s : Text × α) :
    offer (c :: r) consumed best (k :: s.1, s.2) = offer r (consumed + c.utf8Size) best s := by
  rw [offer, offer, reach_cons]

/-- Words behind a character, offered one after the other. -/
theorem foldl_offer_cons (words : List (Text × α)) (best : Option (Nat × α)) :
    (words.map (fun s => (k :: s.1, s.2))).foldl (offer (c :: r) consumed) best =
      words.foldl (offer r (consumed + c.utf8Size)) best := by
  rw [List.foldl_map]
  simp only [offer_cons]

/-- The branches that differ from a character in case, one after the other. -/
theorem foldl_offer_siblings {find : Option (Nat × α) → Trie α → Option (Nat × α)}
    {words : Trie α → List (Text × α)} (look : Char → Bool) (children : List (Char × Trie α))
    (best : Option (Nat × α))
    (h : ∀ u best, find best u = (words u).foldl (offer r (consumed + c.utf8Size)) best) :
    children.foldl (fun best s => if look s.1 then find best s.2 else best) best =
      (children.flatMap fun s =>
        if look s.1 then (words s.2).map (fun w => (s.1 :: w.1, w.2)) else []).foldl
        (offer (c :: r) consumed) best := by
  rw [List.foldl_flatMap]
  congr 1
  funext mid s
  split
  · rw [foldl_offer_cons, h]
  · rfl

/-- The word that ends at the place at hand, if one does. -/
theorem foldl_offer_here (value : Option α) (best : Option (Nat × α)) :
    (match value with
      | some v => if best.all (fun b => b.1 ≤ consumed) then some (consumed, v) else best
      | none => best) = (value.map (([] : Text), ·)).toList.foldl (offer rest consumed) best := by
  cases value with
  | none => rfl
  | some v => cases rest <;> rfl

/-- The words behind the very character. -/
theorem foldl_offer_child {find : Trie α → Option (Nat × α) → Option (Nat × α)}
    {words : Trie α → List (Text × α)} (children : List (Char × Trie α)) (mid : Option (Nat × α))
    (h : ∀ u mid, find u mid = (words u).foldl (offer r consumed) mid) :
    (match child? c children with
      | some u => find u mid
      | none => mid) = (((child? c children).map words).getD []).foldl (offer r consumed) mid := by
  cases child? c children with
  | none => rfl
  | some u => exact h u mid

/-- A search offers the words that it comes by, one after the other. -/
theorem longest_eq_foldl (consumed : Nat) (t : Trie α) (best : Option (Nat × α)) :
    longest noCase rest consumed t best =
      (visited noCase rest t).foldl (offer rest consumed) best := by
  induction rest generalizing consumed t best with
  | nil =>
    rw [longest, visited]
    exact foldl_offer_here t.value best
  | cons c r ih =>
    rw [longest, visited, List.foldl_append, List.foldl_append, foldl_offer_cons,
      ← foldl_offer_here]
    have hbelow := ih (consumed + c.utf8Size)
    have hchild mid := foldl_offer_child (c := c) t.children mid hbelow
    have hsiblings mid := foldl_offer_siblings (c := c)
      (fun k => k != c && lowerCase k == lowerCase c) t.children mid
      fun u best => hbelow u best
    cases noCase with
    | false => exact hchild _
    | true =>
      refine (hsiblings _).trans ?_
      rw [← hchild]
      rfl

/-! ## The last of the longest words -/

/-- What is found is the last of the longest words: those before it are not longer, and those behind
    it are shorter. -/
def LastLongest (length : Text × α → Nat) (words : List (Text × α)) :
    Option (Nat × α) → Prop
  | none => words = []
  | some (n, v) => ∃ before word after, words = before ++ (word, v) :: after ∧
      length (word, v) = n ∧ (∀ s ∈ before, length s ≤ n) ∧ ∀ s ∈ after, length s < n

theorem lastLongest_foldl (rest : Text) (consumed : Nat) (words : List (Text × α)) :
    LastLongest (reach rest consumed) words (words.foldl (offer rest consumed) none) := by
  -- from the left, so that the word at hand is the last one so far
  induction words using List.reverseRecOn with
  | nil => rfl
  | append_singleton words s ih =>
    rw [List.foldl_concat]
    cases hbest : words.foldl (offer rest consumed) none with
    | none =>
      rw [hbest] at ih
      obtain rfl : words = [] := ih
      exact ⟨[], s.1, [], rfl, rfl, by simp, by simp⟩
    | some b =>
      rw [hbest] at ih
      obtain ⟨before, word, after, hwords, hlen, hbefore, hafter⟩ := ih
      by_cases hle : b.1 ≤ reach rest consumed s
      · have hoffer : offer rest consumed (some b) s = some (reach rest consumed s, s.2) :=
          if_pos (by simpa using hle)
        rw [hoffer]
        refine ⟨words, s.1, [], rfl, rfl, fun s' hs' => ?_, by simp⟩
        rw [hwords] at hs'
        obtain hs' | hs' := List.mem_append.mp hs'
        · exact Nat.le_trans (hbefore s' hs') hle
        · obtain rfl | hs' := List.mem_cons.mp hs'
          · exact hlen ▸ hle
          · exact Nat.le_trans (Nat.le_of_lt (hafter s' hs')) hle
      · have hoffer : offer rest consumed (some b) s = some b := if_neg (by simpa using hle)
        rw [hoffer]
        refine ⟨before, word, after ++ [s], by simp [hwords], hlen, hbefore, fun s' hs' => ?_⟩
        obtain hs' | hs' := List.mem_append.mp hs'
        · exact hafter s' hs'
        · rw [List.mem_singleton.mp hs']
          omega

/-! ## What a search comes by -/

/-- The word that ends at once, and those that go on behind a character that agrees. -/
theorem mem_visited_cons (ht : t.Proper) {word : Text} {v : α} :
    (word, v) ∈ visited noCase (c :: r) t ↔ word = [] ∧ t.value = some v ∨
      ∃ k w u, word = k :: w ∧ (k, u) ∈ t.children ∧ agree noCase c k = true ∧
        (w, v) ∈ visited noCase r u := by
  rw [visited, List.mem_append, List.mem_append, or_assoc]
  refine or_congr ?_ ⟨?_, ?_⟩
  · simp [Option.mem_toList, eq_comm, and_comm]
  · rintro (hexact | hsibling)
    · cases hu : child? c t.children with
      | none => simp [hu] at hexact
      | some u =>
        obtain ⟨s, hs, he⟩ : ∃ s ∈ visited noCase r u, (c :: s.1, s.2) = (word, v) := by
          simpa [hu] using hexact
        cases he
        exact ⟨c, s.1, u, rfl, mem_of_child? hu, agree_self noCase c, hs⟩
    · cases noCase with
      | false => simp at hsibling
      | true =>
        obtain ⟨⟨k, u⟩, hu, hmem⟩ := List.mem_flatMap.mp hsibling
        dsimp only at hmem
        split at hmem
        · rename_i hk
          obtain ⟨s, hs, he⟩ := List.mem_map.mp hmem
          cases he
          exact ⟨k, s.1, u, rfl, hu, agree_iff.mpr (.inr ⟨rfl, hk⟩), hs⟩
        · cases hmem
  · rintro ⟨k, w, u, rfl, hu, hk, hw⟩
    obtain rfl | ⟨rfl, hcase⟩ := agree_iff.mp hk
    · refine .inl (List.mem_map.mpr ⟨(w, v), ?_, rfl⟩)
      rw [child?_of_mem ht.keys hu]
      exact hw
    · refine .inr (List.mem_flatMap.mpr ⟨(k, u), hu, ?_⟩)
      dsimp only
      rw [if_pos hcase]
      exact List.mem_map.mpr ⟨(w, v), hw, rfl⟩

/-- A search comes by the words of the tree that agree with a front of the text. -/
theorem mem_visited (ht : t.Proper) {word : Text} {v : α} :
    (word, v) ∈ visited noCase rest t ↔
      find? word t = some v ∧ ∃ front, front <+: rest ∧ Agrees noCase front word := by
  induction rest generalizing t word with
  | nil =>
    have hmem : (word, v) ∈ visited noCase [] t ↔ word = [] ∧ t.value = some v := by
      simp [visited, Option.mem_toList, eq_comm, and_comm]
    rw [hmem]
    constructor
    · rintro ⟨rfl, hv⟩
      exact ⟨hv, [], List.nil_prefix, .nil⟩
    · rintro ⟨hv, front, hfront, hword⟩
      obtain rfl := List.prefix_nil.mp hfront
      cases hword
      exact ⟨rfl, hv⟩
  | cons c r ih =>
    rw [mem_visited_cons ht]
    constructor
    · rintro (⟨rfl, hv⟩ | ⟨k, w, u, rfl, hu, hk, hw⟩)
      · exact ⟨hv, [], List.nil_prefix, .nil⟩
      · obtain ⟨hv, front, hfront, hword⟩ := (ih (ht.child hu)).mp hw
        refine ⟨?_, c :: front, List.cons_prefix_cons.mpr ⟨rfl, hfront⟩, .cons hk hword⟩
        rw [find?_cons, child?_of_mem ht.keys hu]
        exact hv
    · rintro ⟨hv, front, hfront, hword⟩
      cases hword with
      | nil => exact .inl ⟨rfl, hv⟩
      | @cons d k front w hk hword =>
        obtain ⟨rfl, hbelow⟩ := List.cons_prefix_cons.mp hfront
        obtain ⟨u, hu, hv⟩ := Option.bind_eq_some_iff.mp hv
        have hu := mem_of_child? hu
        exact .inr ⟨k, w, u, rfl, hu, hk, (ih (ht.child hu)).mpr ⟨hv, front, hbelow, hword⟩⟩

/-- Behind the words of the very character come words of other characters. -/
theorem visited_cons (noCase : Bool) (c : Char) (r : Text) (t : Trie α) :
    ∃ siblings, visited noCase (c :: r) t = (t.value.map ([], ·)).toList ++
      (((child? c t.children).map (visited noCase r)).getD []).map (fun s => (c :: s.1, s.2)) ++
      siblings ∧ ∀ s ∈ siblings, ∃ k w, s.1 = k :: w ∧ k ≠ c := by
  refine ⟨_, rfl, fun s hs => ?_⟩
  cases noCase with
  | false => cases hs
  | true =>
    obtain ⟨⟨k, u⟩, -, hmem⟩ := List.mem_flatMap.mp hs
    dsimp only at hmem
    split at hmem
    · rename_i hk
      obtain ⟨w, -, rfl⟩ := List.mem_map.mp hmem
      exact ⟨k, w.1, rfl, bne_iff_ne.mp (Bool.and_eq_true_iff.mp hk).1⟩
    · cases hmem

/-- Among the words of one length the exactly spelled one comes first: those before it have another
    length, and those behind it are other words. -/
theorem visited_exact_first (noCase : Bool) (after : Text) {front : Text} {v : α}
    (hv : find? front t = some v) :
    ∃ earlier later, visited noCase (front ++ after) t = earlier ++ (front, v) :: later ∧
      (∀ s ∈ earlier, s.1.length ≠ front.length) ∧ ∀ s ∈ later, s.1 ≠ front := by
  -- along the word: at each of its characters what comes before is shorter, and what comes behind
  -- has another character there
  induction front generalizing t with
  | nil =>
    have hvalue : t.value = some v := hv
    cases after with
    | nil =>
      refine ⟨[], [], ?_, by simp, by simp⟩
      rw [List.append_nil, visited, hvalue]
      rfl
    | cons c r =>
      obtain ⟨siblings, hvisited, hsiblings⟩ := visited_cons noCase c r t
      rw [List.nil_append, hvisited, hvalue, Option.map_some, Option.toList_some,
        List.append_assoc, List.singleton_append]
      refine ⟨[], _, rfl, by simp, fun s hs hnil => ?_⟩
      obtain hs | hs := List.mem_append.mp hs
      · obtain ⟨w, -, rfl⟩ := List.mem_map.mp hs
        cases hnil
      · obtain ⟨k, w, hs, -⟩ := hsiblings s hs
        rw [hnil] at hs
        cases hs
  | cons c front ih =>
    obtain ⟨u, hu, hv⟩ := Option.bind_eq_some_iff.mp hv
    obtain ⟨earlier, later, hbelow, hearlier, hlater⟩ := ih hv
    obtain ⟨siblings, hvisited, hsiblings⟩ := visited_cons noCase c (front ++ after) t
    rw [hu, Option.map_some, Option.getD_some, hbelow, List.map_append, List.map_cons,
      List.append_assoc, List.append_assoc, List.cons_append, ← List.append_assoc] at hvisited
    refine ⟨_, _, hvisited, fun s hs => ?_, fun s hs => ?_⟩
    · obtain hs | hs := List.mem_append.mp hs
      · obtain ⟨w, -, rfl⟩ : ∃ w, t.value = some w ∧ (([] : Text), w) = s := by simpa using hs
        exact Nat.zero_ne_add_one _
      · obtain ⟨w, hw, rfl⟩ := List.mem_map.mp hs
        exact fun hlen => hearlier w hw (Nat.succ_inj.mp hlen)
    · obtain hs | hs := List.mem_append.mp hs
      · obtain ⟨w, hw, rfl⟩ := List.mem_map.mp hs
        exact fun he => hlater w hw (List.cons.inj he).2
      · obtain ⟨k, w, hs, hk⟩ := hsiblings s hs
        rw [hs]
        exact fun he => hk (List.cons.inj he).1

/-- A word that agrees with a front of the text takes as many bytes as that front. -/
theorem reach_of_agrees {front after word : Text} {v : α} (h : Agrees noCase front word) :
    reach (front ++ after) 0 (word, v) = byteLength front := by
  rw [reach, Nat.zero_add, List.take_left' h.length_eq]

/-- An element of a list stands before a given one, at its place, or behind it. -/
theorem mem_or_eq_of_append_cons {β : Type} {earlier later before after : List β} {x y : β}
    (h : earlier ++ x :: later = before ++ y :: after) :
    y ∈ earlier ∨ (y = x ∧ after = later) ∨ y ∈ later := by
  obtain ⟨mid, -, hmid⟩ | ⟨mid, hmid, htail⟩ := List.append_eq_append_iff.mp h
  · cases mid with
    | nil =>
      cases hmid
      exact .inr (.inl ⟨rfl, rfl⟩)
    | cons z mid =>
      cases hmid
      exact .inr (.inr (List.mem_append_cons_self))
  · cases mid with
    | nil =>
      cases htail
      exact .inr (.inl ⟨rfl, rfl⟩)
    | cons z mid =>
      cases htail
      rw [hmid]
      exact .inl List.mem_append_cons_self

/-- If the exactly spelled word is one of the longest, the word that is found without case is that
    word only if it is the only one with its letters. -/
theorem longest_beside_exact {front after : Text} {v w : α} (ht : t.Proper)
    (hv : find? front t = some v)
    (hw : longest true (front ++ after) 0 t none = some (byteLength front, w)) :
    ∃ word, find? word t = some w ∧ SameLetters front word ∧
      (word = front ↔
        ∀ other, (find? other t).isSome → SameLetters front other → other = front) := by
  obtain ⟨earlier, later, hexact, hearlier, hlater⟩ :=
    visited_exact_first true after hv
  have hlast := lastLongest_foldl (front ++ after) 0 (visited true (front ++ after) t)
  rw [← longest_eq_foldl, hw] at hlast
  obtain ⟨before, word, behind, hfound, hlen, -, hbehind⟩ := hlast
  -- the word that is found is one of those with the letters of the front
  have hmem : (word, w) ∈ visited true (front ++ after) t := hfound ▸ List.mem_append_cons_self
  obtain ⟨hword, front', ⟨after', hfront'⟩, hagrees⟩ := (mem_visited ht).mp hmem
  rw [← hfront', reach_of_agrees hagrees] at hlen
  obtain rfl : front' = front := (append_inj_of_byteLength hfront' hlen).1
  refine ⟨word, hword, agrees_true_iff.mp hagrees, ?_⟩
  obtain hmem | ⟨he, rfl⟩ | hmem := mem_or_eq_of_append_cons (hexact.symm.trans hfound)
  · exact absurd hagrees.length_eq.symm (hearlier _ hmem)
  · refine ⟨fun _ other hother hsame => ?_, fun _ => congrArg Prod.fst he⟩
    -- another word would come behind the exact one, and is not longer
    by_contra hne
    obtain ⟨x, hx⟩ := Option.isSome_iff_exists.mp hother
    have hagrees' := agrees_true_iff.mpr hsame
    have hmem' := (mem_visited ht).mpr ⟨hx, front', List.prefix_append front' after, hagrees'⟩
    rw [hexact] at hmem'
    obtain hmem' | hmem' := List.mem_append.mp hmem'
    · exact hearlier _ hmem' hagrees'.length_eq.symm
    · obtain he | hmem' := List.mem_cons.mp hmem'
      · exact hne (congrArg Prod.fst he)
      · exact absurd (hbehind _ hmem') (by rw [reach_of_agrees hagrees']; exact Nat.lt_irrefl _)
  · refine ⟨fun he => absurd he (hlater _ hmem), fun honly => ?_⟩
    exact honly word (Option.isSome_of_eq_some hword) (agrees_true_iff.mp hagrees)

end Search

end Trie

namespace Symbols

/-! ## Beside the exactly spelled word -/

/-- A search with case that finds a word, and one without case that takes the same bytes: the word
    whose value the latter yields is the exactly spelled one if and only if no other word of the
    table has its letters. So it is that whatever the history of the table, and in whatever order
    the search visits the branches. -/
theorem exact_spelling_yields_iff (steps : List (Edit α)) {root : Trie α}
    (horder : (built steps).root.Alike root) (t : Text) {n : Nat} {v w : α}
    (hexact : root.longest false t 0 none = some (n, v))
    (hblind : root.longest true t 0 none = some (n, w)) :
    ∃ front word, front <+: t ∧ byteLength front = n ∧
      (WordMap.built steps).lookup (String.ofList front) = some v ∧
      (WordMap.built steps).lookup word = some w ∧ SameLetters front word.toList ∧
      (word = String.ofList front ↔ ∀ other ∈ WordMap.built steps,
        SameLetters front other.toList → other = String.ofList front) := by
  have h := Represents.built steps
  obtain ⟨hproper, hfind⟩ := horder.find?_eq h.proper
  have hlookup : ∀ word, root.find? word = (WordMap.built steps).lookup (String.ofList word) :=
    fun word => (hfind word).trans (h.find?_root word)
  obtain ⟨front, after, word, rfl, rfl, hword, hv⟩ := Trie.matches_of_longest hproper hexact
  obtain rfl := agrees_false_iff.mp hword
  obtain ⟨word, hw, hsame, honly⟩ := Trie.longest_beside_exact hproper hv hblind
  refine ⟨front, String.ofList word, List.prefix_append front after, rfl,
    (hlookup front).symm.trans hv, (hlookup word).symm.trans hw, ?_, ?_⟩
  · rwa [String.toList_ofList]
  · rw [String.ofList_inj, honly]
    constructor
    · intro honly other hother hsame
      obtain ⟨x, hx⟩ := Finmap.mem_iff.mp hother
      have hfound : (root.find? other.toList).isSome := by
        rw [hlookup, String.ofList_toList, hx]
        rfl
      rw [← honly other.toList hfound hsame, String.ofList_toList]
    · intro honly other hother hsame
      obtain ⟨x, hx⟩ := Option.isSome_iff_exists.mp hother
      refine String.ofList_inj.mp (honly (String.ofList other) ?_ ?_)
      · exact Finmap.mem_iff.mpr ⟨x, (hlookup other).symm.trans hx⟩
      · rwa [String.toList_ofList]

/-- One letter in both cases, and a longer word in one. -/
def spellings : List (Edit Nat) := [.ofList [("a", 1), ("A", 2), ("ab", 3)]]

/-- The longer word has no other spelling in the table. -/
theorem exact_spelling_yields_iff_longer :
    (built spellings).scan false "ab".toList = some (2, 3) ∧
    (built spellings).scan true "ab".toList = some (2, 3) ∧
    ∃ front word, front <+: "ab".toList ∧ byteLength front = 2 ∧
      (WordMap.built spellings).lookup (String.ofList front) = some 3 ∧
      (WordMap.built spellings).lookup word = some 3 ∧ SameLetters front word.toList ∧
      (word = String.ofList front ↔ ∀ other ∈ WordMap.built spellings,
        SameLetters front other.toList → other = String.ofList front) := by
  have hexact : (built spellings).scan false "ab".toList = some (2, 3) := by decide +kernel
  have hblind : (built spellings).scan true "ab".toList = some (2, 3) := by decide +kernel
  have halike := ((Represents.built spellings).alike (Represents.built spellings)).2
  exact ⟨hexact, hblind, exact_spelling_yields_iff spellings halike "ab".toList hexact hblind⟩

/-- Each spelling of the letter has a value of its own, and without case yields that of the
    other. -/
theorem scan_takes_other_spelling :
    ((built spellings).scan false "a".toList = some (1, 1) ∧
      (built spellings).scan true "a".toList = some (1, 2)) ∧
    (built spellings).scan false "A".toList = some (1, 2) ∧
      (built spellings).scan true "A".toList = some (1, 1) := by
  decide +kernel

end Symbols

end Peg
