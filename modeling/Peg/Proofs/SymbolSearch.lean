/-
  Peg.Proofs.SymbolSearch

  Looking a text up in a table of words. In the tree of a table no two branches at
  one place share a character, which every way to build a table keeps up. The search
  of such a tree comes to the longest word of it that the text starts with, up to
  case if case is ignored, in whatever order it visits the branches.
-/
import Peg.Terminal.Symbols

namespace Peg

open Text

variable {α : Type}

namespace Trie

/-! ## One branch for a character -/

/-- No two branches at one place share a character. -/
inductive Proper : Trie α → Prop where
  | node {value : Option α} {children : List (Char × Trie α)}
      (keys : (children.map Prod.fst).Nodup)
      (below : ∀ k u, (k, u) ∈ children → Proper u) : Proper (.node value children)

theorem Proper.keys {t : Trie α} (h : t.Proper) : (t.children.map Prod.fst).Nodup := by
  obtain ⟨hkeys, -⟩ := h
  exact hkeys

theorem Proper.child {t u : Trie α} {k : Char} (h : t.Proper) (hu : (k, u) ∈ t.children) :
    u.Proper := by
  obtain ⟨-, hbelow⟩ := h
  exact hbelow k u hu

theorem empty_proper : (empty : Trie α).Proper := .node List.nodup_nil (by simp)

theorem mem_of_child? {c : Char} {u : Trie α} {children : List (Char × Trie α)}
    (h : child? c children = some u) : (c, u) ∈ children := by
  induction children with
  | nil => cases h
  | cons s r ih =>
    obtain ⟨k, t⟩ := s
    rw [child?] at h
    split at h
    · rename_i hk
      cases h
      rw [hk]
      exact List.mem_cons_self
    · exact List.mem_cons_of_mem _ (ih h)

/-- The branch of a character is found if no other one shares the character. -/
theorem child?_of_mem {c : Char} {u : Trie α} {children : List (Char × Trie α)}
    (hkeys : (children.map Prod.fst).Nodup) (h : (c, u) ∈ children) :
    child? c children = some u := by
  induction children with
  | nil => cases h
  | cons s r ih =>
    obtain ⟨k, t⟩ := s
    obtain ⟨hk, hr⟩ := List.nodup_cons.mp hkeys
    rw [child?]
    obtain he | h := List.mem_cons.mp h
    · cases he
      rw [if_pos rfl]
    · have hne : k ≠ c := by
        rintro rfl
        exact hk (List.mem_map.mpr ⟨_, h, rfl⟩)
      rw [if_neg hne]
      exact ih hr h

theorem mem_setChild {c k : Char} {u w : Trie α} {children : List (Char × Trie α)}
    (h : (k, w) ∈ setChild c u children) : (k, w) = (c, u) ∨ (k, w) ∈ children := by
  induction children with
  | nil => exact .inl (List.mem_singleton.mp h)
  | cons s r ih =>
    obtain ⟨k', t⟩ := s
    rw [setChild] at h
    split at h
    · rename_i hk
      subst hk
      exact (List.mem_cons.mp h).imp id (List.mem_cons_of_mem _)
    · obtain he | h := List.mem_cons.mp h
      · rw [he]
        exact .inr List.mem_cons_self
      · exact (ih h).imp id (List.mem_cons_of_mem _)

theorem setChild_keys {c : Char} {u : Trie α} {children : List (Char × Trie α)}
    (hkeys : (children.map Prod.fst).Nodup) : ((setChild c u children).map Prod.fst).Nodup := by
  induction children with
  | nil => exact List.nodup_cons.mpr ⟨List.not_mem_nil, List.nodup_nil⟩
  | cons s r ih =>
    obtain ⟨k, t⟩ := s
    obtain ⟨hk, hr⟩ := List.nodup_cons.mp hkeys
    rw [setChild]
    split
    · exact hkeys
    · rename_i hne
      refine List.nodup_cons.mpr ⟨fun hmem => ?_, ih hr⟩
      obtain ⟨⟨k', w⟩, hw, rfl⟩ := List.mem_map.mp hmem
      obtain he | hw := mem_setChild hw
      · cases he
        exact hne rfl
      · exact hk (List.mem_map.mpr ⟨_, hw, rfl⟩)

theorem dropChild_sublist (c : Char) (children : List (Char × Trie α)) :
    (dropChild c children).Sublist children := by
  induction children with
  | nil => exact .slnil
  | cons s r ih =>
    obtain ⟨k, t⟩ := s
    rw [dropChild]
    split
    · exact .cons _ (List.Sublist.refl r)
    · exact ih.cons_cons _

/-- A proper tree behind a character keeps the tree proper. -/
theorem Proper.setChild {t u : Trie α} (h : t.Proper) (hu : u.Proper) (c : Char) :
    (Trie.node t.value (setChild c u t.children)).Proper := by
  refine .node (setChild_keys h.keys) fun k w hw => ?_
  obtain he | hw := mem_setChild hw
  · cases he
    exact hu
  · exact h.child hw

theorem Proper.insert {t : Trie α} (h : t.Proper) (w : Text) (v : α) : (t.insert w v).Proper := by
  induction w generalizing t with
  | nil => exact .node h.keys fun _ _ hu => h.child hu
  | cons c w ih =>
    apply h.setChild
    apply ih
    cases hc : child? c t.children with
    | none => exact empty_proper
    | some u => exact h.child (mem_of_child? hc)

theorem Proper.remove {t : Trie α} (h : t.Proper) (w : Text) : (t.remove w).2.Proper := by
  induction w generalizing t with
  | nil => exact .node h.keys fun _ _ hu => h.child hu
  | cons c w ih =>
    rw [Trie.remove]
    split
    · exact h
    · rename_i u hc
      have hu : (u.remove w).2.Proper := ih (h.child (mem_of_child? hc))
      dsimp only
      split
      · have hsub := dropChild_sublist c t.children
        exact .node ((hsub.map _).nodup h.keys) fun _ _ hw => h.child (hsub.mem hw)
      · exact h.setChild hu c

/-! ## The longest word -/

/-- A word of the tree stands at the front of the text, up to case if case is ignored, and takes so
    many bytes of it. -/
inductive Spells (noCase : Bool) : Text → Trie α → Nat → Prop where
  | here {rest : Text} {t : Trie α} (h : t.value.isSome) : Spells noCase rest t 0
  | deeper {c k : Char} {r : Text} {t u : Trie α} {n : Nat} (hu : (k, u) ∈ t.children)
      (hk : agree noCase c k = true) (h : Spells noCase r u n) :
      Spells noCase (c :: r) t (c.utf8Size + n)

/-- What a search has found is the greatest of the lengths, or nothing if there are none. -/
structure Furthest (found : Option (Nat × α)) (lengths : Nat → Prop) : Prop where
  isOne : ∀ b, found = some b → lengths b.1
  greatest : ∀ n, lengths n → ∃ b, found = some b ∧ n ≤ b.1

namespace Furthest

variable {found found' : Option (Nat × α)} {L L' : Nat → Prop}

theorem none : Furthest (none : Option (Nat × α)) fun _ => False := ⟨nofun, nofun⟩

theorem congr (h : Furthest found L) (hL : ∀ n, L n ↔ L' n) : Furthest found L' :=
  ⟨fun b hb => (hL _).mp (h.isOne b hb), fun n hn => h.greatest n ((hL n).mpr hn)⟩

/-- The greatest length is one. -/
theorem length_eq (h : Furthest found L) (h' : Furthest found' L) :
    found'.map Prod.fst = found.map Prod.fst := by
  cases hf : found with
  | none =>
    cases hf' : found' with
    | none => rfl
    | some b' =>
      obtain ⟨b, hb, -⟩ := h.greatest _ (h'.isOne b' hf')
      rw [hf] at hb
      cases hb
  | some b =>
    obtain ⟨b', hb', hle⟩ := h'.greatest _ (h.isOne b hf)
    obtain ⟨b1, hb1, hle1⟩ := h.greatest _ (h'.isOne b' hb')
    rw [hf] at hb1
    cases hb1
    rw [hb', Option.map_some, Option.map_some, Nat.le_antisymm hle1 hle]

/-- A word that ends at the place at hand replaces one that is not longer. -/
theorem here (h : Furthest found L) (value : Option α) (consumed : Nat) :
    Furthest
      (match value with
      | some v => if found.all (fun b => b.1 ≤ consumed) then some (consumed, v) else found
      | .none => found)
      fun n => L n ∨ value.isSome ∧ n = consumed := by
  cases value with
  | none =>
    refine h.congr fun n => ?_
    simp
  | some v =>
    dsimp only
    split
    · rename_i hall
      refine ⟨fun b hb => ?_, fun n hn => ⟨_, rfl, ?_⟩⟩
      · cases hb
        exact .inr ⟨rfl, rfl⟩
      · obtain hn | ⟨-, rfl⟩ := hn
        · obtain ⟨b, rfl, hle⟩ := h.greatest n hn
          have hb : b.1 ≤ consumed := by simpa using hall
          exact Nat.le_trans hle hb
        · exact Nat.le_refl _
    · rename_i hall
      refine ⟨fun b hb => .inl (h.isOne b hb), fun n hn => ?_⟩
      obtain hn | ⟨-, rfl⟩ := hn
      · exact h.greatest n hn
      · -- the word found before is longer
        cases found with
        | none => exact absurd rfl hall
        | some b =>
          have hlt : n < b.1 := by simpa using hall
          exact ⟨b, rfl, Nat.le_of_lt hlt⟩

/-- The branch of the very character, if there is one. -/
theorem child {c : Char} {children : List (Char × Trie α)} {find : Trie α → Option (Nat × α)}
    {B : Trie α → Nat → Prop} (hkeys : (children.map Prod.fst).Nodup) (h : Furthest found L)
    (hfind : ∀ u, (c, u) ∈ children → Furthest (find u) fun n => L n ∨ B u n) :
    Furthest
      (match child? c children with
      | some u => find u
      | .none => found)
      fun n => L n ∨ ∃ u, (c, u) ∈ children ∧ B u n := by
  split
  · rename_i u hu
    refine (hfind u (mem_of_child? hu)).congr fun n => or_congr_right ⟨fun hn => ?_, ?_⟩
    · exact ⟨u, mem_of_child? hu, hn⟩
    · rintro ⟨w, hw, hn⟩
      rw [child?_of_mem hkeys hw] at hu
      cases hu
      exact hn
  · rename_i hnone
    refine h.congr fun n => ⟨.inl, ?_⟩
    rintro (hn | ⟨u, hu, -⟩)
    · exact hn
    · rw [child?_of_mem hkeys hu] at hnone
      cases hnone

/-- The branches that are looked into, one after the other. -/
theorem siblings (look : Char → Bool) {find : Option (Nat × α) → Trie α → Option (Nat × α)}
    {B : Trie α → Nat → Prop} (children : List (Char × Trie α)) (h : Furthest found L)
    (hfind : ∀ k u, (k, u) ∈ children → ∀ mid M, Furthest mid M →
      Furthest (find mid u) fun n => M n ∨ B u n) :
    Furthest (children.foldl (fun mid s => if look s.1 then find mid s.2 else mid) found)
      fun n => L n ∨ ∃ k u, (k, u) ∈ children ∧ look k ∧ B u n := by
  -- what is found so far is carried from branch to branch
  induction children generalizing found L with
  | nil => exact h.congr fun n => by simp
  | cons s r ih =>
    obtain ⟨k, u⟩ := s
    rw [List.foldl_cons]
    have hr : ∀ k u, (k, u) ∈ r → ∀ mid M, Furthest mid M →
        Furthest (find mid u) fun n => M n ∨ B u n :=
      fun k u hu => hfind k u (List.mem_cons_of_mem _ hu)
    cases hlook : look k with
    | true =>
      refine (ih (hfind k u List.mem_cons_self _ _ h) hr).congr fun n => ?_
      simp only [List.mem_cons, or_and_right, exists_or, or_assoc]
      refine or_congr_right (or_congr_left ⟨fun hn => ⟨k, u, rfl, hlook, hn⟩, ?_⟩)
      rintro ⟨k', u', he, -, hn⟩
      cases he
      exact hn
    | false =>
      refine (ih h hr).congr fun n => or_congr_right ⟨?_, ?_⟩
      · rintro ⟨k', u', hu', hrest⟩
        exact ⟨k', u', List.mem_cons_of_mem _ hu', hrest⟩
      · rintro ⟨k', u', hu', hlook', hn⟩
        obtain he | hu' := List.mem_cons.mp hu'
        · cases he
          rw [hlook] at hlook'
          cases hlook'
        · exact ⟨k', u', hu', hlook', hn⟩

end Furthest

/-- The words of a tree by the branches that they are found in. -/
theorem spells_cons {noCase : Bool} {c : Char} {r : Text} {consumed n : Nat} {t : Trie α} :
    (∃ m, Spells noCase (c :: r) t m ∧ n = consumed + m) ↔
      t.value.isSome ∧ n = consumed ∨ ∃ k u, (k, u) ∈ t.children ∧ agree noCase c k = true ∧
        ∃ m, Spells noCase r u m ∧ n = consumed + c.utf8Size + m := by
  constructor
  · rintro ⟨_, hm, rfl⟩
    cases hm with
    | here hv => exact .inl ⟨hv, rfl⟩
    | deeper hu hk hm => exact .inr ⟨_, _, hu, hk, _, hm, (Nat.add_assoc _ _ _).symm⟩
  · rintro (⟨hv, rfl⟩ | ⟨k, u, hu, hk, m, hm, rfl⟩)
    · exact ⟨0, .here hv, rfl⟩
    · exact ⟨_, .deeper hu hk hm, Nat.add_assoc _ _ _⟩

/-- The branches that agree with a character: its own, and without case those that differ from it in
    case. -/
theorem agree_iff {noCase : Bool} {c k : Char} :
    agree noCase c k = true ↔
      k = c ∨ noCase = true ∧ (k != c && lowerCase k == lowerCase c) = true := by
  by_cases hk : k = c
  · simp [hk, agree_self]
  · have hne : c ≠ k := fun h => hk h.symm
    cases noCase with
    | false => simp [agree, hk, hne]
    | true =>
      simp only [agree, sameLetter, if_true, Bool.or_eq_true, Bool.and_eq_true, beq_iff_eq,
        bne_iff_ne, hk, hne, false_or, true_and, ne_eq, not_false_eq_true]
      exact eq_comm

/-- The search of a proper tree goes on to the longest word that it finds. -/
theorem longest_furthest {noCase : Bool} (rest : Text) (consumed : Nat) {t : Trie α} (ht : t.Proper)
    {best : Option (Nat × α)} {L : Nat → Prop} (h : Furthest best L) :
    Furthest (longest noCase rest consumed t best)
      fun n => L n ∨ ∃ m, Spells noCase rest t m ∧ n = consumed + m := by
  -- on the text that is left; what was found before, and how far it may reach, is arbitrary
  induction rest generalizing consumed t best L with
  | nil =>
    rw [longest]
    refine (h.here t.value consumed).congr fun n => or_congr_right ⟨?_, ?_⟩
    · rintro ⟨hv, rfl⟩
      exact ⟨0, .here hv, rfl⟩
    · rintro ⟨m, hm, rfl⟩
      cases hm with
      | here hv => exact ⟨hv, rfl⟩
  | cons c r ih =>
    rw [longest]
    dsimp only
    have hbelow : ∀ k u, (k, u) ∈ t.children → ∀ mid M, Furthest mid M →
        Furthest (longest noCase r (consumed + c.utf8Size) u mid) fun n =>
          M n ∨ ∃ m, Spells noCase r u m ∧ n = consumed + c.utf8Size + m :=
      fun k u hu mid M hM => ih (consumed + c.utf8Size) (ht.child hu) hM
    have hhere := h.here t.value consumed
    have hchild := hhere.child (c := c) ht.keys fun u hu => hbelow c u hu _ _ hhere
    cases noCase with
    | false =>
      refine hchild.congr fun n => ?_
      simp only [spells_cons, agree_iff, or_assoc, Bool.false_eq_true, false_and, or_false]
      refine or_congr_right (or_congr_right ⟨?_, ?_⟩)
      · rintro ⟨u, hu, hn⟩
        exact ⟨c, u, hu, rfl, hn⟩
      · rintro ⟨k, u, hu, rfl, hn⟩
        exact ⟨u, hu, hn⟩
    | true =>
      -- its own branch first and then those that differ in case: a greatest length has no order
      refine (hchild.siblings (fun k => k != c && lowerCase k == lowerCase c) t.children
        hbelow).congr fun n => ?_
      simp only [spells_cons, agree_iff, or_assoc, true_and]
      refine or_congr_right (or_congr_right ⟨?_, ?_⟩)
      · rintro (⟨u, hu, hn⟩ | ⟨k, u, hu, hk, hn⟩)
        · exact ⟨c, u, hu, .inl rfl, hn⟩
        · exact ⟨k, u, hu, .inr hk, hn⟩
      · rintro ⟨k, u, hu, rfl | hk, hn⟩
        · exact .inl ⟨u, hu, hn⟩
        · exact .inr ⟨k, u, hu, hk, hn⟩

end Trie

/-! ## Tables -/

namespace Symbols

/-- The tree of the table is proper. -/
def Proper (s : Symbols α) : Prop := s.root.Proper

theorem empty_proper : (empty : Symbols α).Proper := Trie.empty_proper

theorem Proper.insert {s : Symbols α} (h : s.Proper) (word : String) (v : α) :
    (s.insert word v).Proper := Trie.Proper.insert h word.toList v

theorem Proper.remove {s : Symbols α} (h : s.Proper) (word : String) : (s.remove word).2.Proper :=
  Trie.Proper.remove h word.toList

/-- Every table that is built from words and values is proper. -/
theorem ofList_proper (pairs : List (String × α)) : (ofList pairs).Proper := by
  have hfold : ∀ s : Symbols α, s.Proper →
      (pairs.foldl (fun s p => s.insert p.1 p.2) s).Proper := by
    induction pairs with
    | nil => exact fun s h => h
    | cons p pairs ih => exact fun s h => ih _ (h.insert p.1 p.2)
  exact hfold _ empty_proper

/-- A word of a proper table that the text starts with is found, and none is longer. -/
theorem scan_furthest {s : Symbols α} (h : s.Proper) (noCase : Bool) (t : Text) :
    Trie.Furthest (s.scan noCase t) (Trie.Spells noCase t s.root) := by
  refine (Trie.longest_furthest t 0 h .none).congr fun n => ?_
  simp

end Symbols

end Peg
