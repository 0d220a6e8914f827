/-
  Peg.Proofs.SymbolTable

  A table of words is a finite map. Whatever is done to a table, a word is found
  in it exactly when the map made by the same steps holds it, and its size is the
  number of the words. The tree behind it has no dead branches: a word ends behind
  every branch, and taking a word out prunes what it leaves empty. Such a tree is
  determined by the words in it, up to the order of branches, and so two tables
  that hold the same words have the same tree, whatever their histories.
-/
import Mathlib.Data.Finmap
import Mathlib.Data.List.Perm.Basic
import Peg.Proofs.SymbolSearch

namespace Peg

variable {α : Type}

namespace Trie

/-! ## Branches -/

section Branches

variable {c k : Char} {u : Trie α} {children : List (Char × Trie α)}

theorem child?_setChild :
    child? k (setChild c u children) = if c = k then some u else child? k children := by
  induction children with
  | nil => rfl
  | cons s r ih =>
    obtain ⟨k', t⟩ := s
    rw [setChild]
    by_cases hk' : k' = c
    · subst hk'
      rw [if_pos rfl, child?, child?]
      split <;> rfl
    · rw [if_neg hk', child?, child?, ih]
      by_cases hk : k' = k
      · subst hk
        rw [if_pos rfl, if_pos rfl, if_neg fun h => hk' h.symm]
      · rw [if_neg hk, if_neg hk]

/-- A branch that is put where it was leaves all as it was. -/
theorem setChild_self (h : child? c children = some u) : setChild c u children = children := by
  induction children with
  | nil => cases h
  | cons s r ih =>
    obtain ⟨k', t⟩ := s
    rw [child?] at h
    rw [setChild]
    split at h
    · rename_i hk
      cases h
      rw [if_pos hk]
    · rename_i hk
      rw [if_neg hk, ih h]

theorem child?_eq_none (h : c ∉ children.map Prod.fst) : child? c children = none := by
  cases hc : child? c children with
  | none => rfl
  | some u => exact absurd (List.mem_map.mpr ⟨_, mem_of_child? hc, rfl⟩) h

theorem child?_dropChild (hkeys : (children.map Prod.fst).Nodup) :
    child? k (dropChild c children) = if c = k then none else child? k children := by
  induction children with
  | nil => exact (ite_self none).symm
  | cons s r ih =>
    obtain ⟨k', t⟩ := s
    obtain ⟨hk', hr⟩ := List.nodup_cons.mp hkeys
    rw [dropChild]
    by_cases hc : k' = c
    · subst hc
      rw [if_pos rfl, child?]
      by_cases hk : k' = k
      · subst hk
        rw [if_pos rfl, child?_eq_none hk']
      · rw [if_neg hk, if_neg hk]
    · rw [if_neg hc, child?, child?, ih hr]
      by_cases hk : k' = k
      · subst hk
        rw [if_pos rfl, if_pos rfl, if_neg fun h => hc h.symm]
      · rw [if_neg hk, if_neg hk]

end Branches

/-! ## Words -/

@[simp] theorem find?_nil (t : Trie α) : find? [] t = t.value := rfl

@[simp] theorem find?_cons (c : Char) (w : Text) (t : Trie α) :
    find? (c :: w) t = (child? c t.children).bind (find? w) := rfl

@[simp] theorem value_node (v : Option α) (children : List (Char × Trie α)) :
    (node v children).value = v := rfl

@[simp] theorem children_node (v : Option α) (children : List (Char × Trie α)) :
    (node v children).children = children := rfl

@[simp] theorem find?_empty (w : Text) : find? w (empty : Trie α) = none := by
  cases w <;> rfl

/-- An insertion gives its word the value, and leaves the others alone. -/
theorem find?_insert (w x : Text) (v : α) (t : Trie α) :
    find? x (insert w v t) = if x = w then some v else find? x t := by
  induction w generalizing x t with
  | nil => cases x <;> simp [insert]
  | cons c w ih =>
    cases x with
    | nil => simp [insert]
    | cons d x =>
      rw [insert, find?_cons, children_node, child?_setChild]
      by_cases hd : c = d
      · subst hd
        rw [if_pos rfl, Option.bind_some, ih]
        -- behind a character that was not there before, nothing is found
        cases hu : child? c t.children <;> simp [hu]
      · have hne : d :: x ≠ c :: w := fun h => hd (List.cons.inj h).1.symm
        rw [if_neg hd, if_neg hne, find?_cons]

/-- What comes out is what was in. -/
theorem remove_fst (w : Text) (t : Trie α) : (remove w t).1 = find? w t := by
  induction w generalizing t with
  | nil => rfl
  | cons c w ih =>
    rw [remove, find?_cons]
    cases child? c t.children with
    | none => rfl
    | some u => exact ih u

theorem find?_of_isEmpty {t : Trie α} (h : t.isEmpty = true) (w : Text) : find? w t = none := by
  obtain ⟨v, children⟩ := t
  simp only [isEmpty, value_node, children_node, Bool.and_eq_true, Option.isNone_iff_eq_none,
    List.isEmpty_iff] at h
  obtain ⟨rfl, rfl⟩ := h
  exact find?_empty w

/-- A removal takes its word out, and leaves the others alone. -/
theorem find?_remove {t : Trie α} (ht : t.Proper) (w x : Text) :
    find? x (remove w t).2 = if x = w then none else find? x t := by
  induction w generalizing x t with
  | nil => cases x <;> simp [remove]
  | cons c w ih =>
    rw [remove]
    cases hu : child? c t.children with
    | none =>
      -- the word was not there
      dsimp only
      split
      · rename_i hx
        rw [hx, find?_cons, hu]
        rfl
      · rfl
    | some u =>
      have hbelow := fun x => ih (ht.child (mem_of_child? hu)) x
      dsimp only
      cases x with
      | nil => simp
      | cons d x =>
        rw [find?_cons, children_node]
        by_cases hd : c = d
        · subst hd
          have hword : c :: x = c :: w ↔ x = w := by simp
          simp only [find?_cons, hu, Option.bind_some, hword]
          rw [← hbelow x]
          split
          · -- the branch is pruned, for nothing is found in what is left of it
            rename_i hempty
            rw [child?_dropChild ht.keys, if_pos rfl, find?_of_isEmpty hempty]
            rfl
          · rw [child?_setChild, if_pos rfl]
            rfl
        · have hne : d :: x ≠ c :: w := fun h => hd (List.cons.inj h).1.symm
          rw [if_neg hne, find?_cons]
          split
          · rw [child?_dropChild ht.keys, if_neg hd]
          · rw [child?_setChild, if_neg hd]

/-! ## Dead branches -/

/-- A word ends in the tree. -/
inductive Bears : Trie α → Prop where
  | here {t : Trie α} (h : t.value.isSome) : Bears t
  | deeper {t u : Trie α} {c : Char} (hu : (c, u) ∈ t.children) (h : Bears u) : Bears t

/-- A word ends behind every branch of the tree, at whatever depth: no node but the root is without
    a value in it or below it. -/
inductive Pruned : Trie α → Prop where
  | node {t : Trie α} (bears : ∀ c u, (c, u) ∈ t.children → Bears u)
      (below : ∀ c u, (c, u) ∈ t.children → Pruned u) : Pruned t

theorem Pruned.bears {t u : Trie α} {c : Char} (h : t.Pruned) (hu : (c, u) ∈ t.children) :
    u.Bears := by
  obtain ⟨hbears, -⟩ := h
  exact hbears c u hu

theorem Pruned.child {t u : Trie α} {c : Char} (h : t.Pruned) (hu : (c, u) ∈ t.children) :
    u.Pruned := by
  obtain ⟨-, hbelow⟩ := h
  exact hbelow c u hu

/-- A tree bears the words that are found in it. -/
theorem bears_iff {t : Trie α} (ht : t.Proper) : t.Bears ↔ ∃ w, (find? w t).isSome := by
  constructor
  · intro h
    induction h with
    | here hv => exact ⟨[], hv⟩
    | @deeper t u c hu _ ih =>
      obtain ⟨w, hw⟩ := ih (ht.child hu)
      refine ⟨c :: w, ?_⟩
      rwa [find?_cons, child?_of_mem ht.keys hu]
  · rintro ⟨w, hw⟩
    induction w generalizing t with
    | nil => exact .here hw
    | cons c w ih =>
      rw [find?_cons] at hw
      cases hu : child? c t.children with
      | none =>
        rw [hu] at hw
        cases hw
      | some u =>
        rw [hu] at hw
        exact .deeper (mem_of_child? hu) (ih (ht.child (mem_of_child? hu)) hw)

/-- A pruned tree is empty or bears a word. -/
theorem Pruned.bears_of_not_isEmpty {t : Trie α} (h : t.Pruned) (hne : t.isEmpty ≠ true) :
    t.Bears := by
  by_cases hv : t.value.isSome
  · exact .here hv
  · have hchildren : t.children ≠ [] := by
      intro hnil
      rw [isEmpty, hnil, Option.not_isSome_iff_eq_none.mp hv] at hne
      exact hne rfl
    obtain ⟨⟨c, u⟩, hu⟩ := List.exists_mem_of_ne_nil _ hchildren
    exact .deeper hu (h.bears hu)

theorem Bears.not_isEmpty {t : Trie α} (h : t.Bears) : t.isEmpty = false := by
  rw [isEmpty]
  cases h with
  | here hv => rw [Option.isNone_eq_false_iff.mpr hv, Bool.false_and]
  | deeper hu _ => rw [List.isEmpty_eq_false_iff.mpr (List.ne_nil_of_mem hu), Bool.and_false]

theorem empty_pruned : (empty : Trie α).Pruned := .node nofun nofun

/-- A pruned tree that bears a word, behind a character of a pruned one. -/
theorem Pruned.setChild {t u : Trie α} (h : t.Pruned) (hu : u.Pruned) (hb : u.Bears) (c : Char) :
    (Trie.node t.value (setChild c u t.children)).Pruned := by
  refine .node (fun k w hw => ?_) (fun k w hw => ?_)
  · obtain he | hw := mem_setChild hw
    · cases he
      exact hb
    · exact h.bears hw
  · obtain he | hw := mem_setChild hw
    · cases he
      exact hu
    · exact h.child hw

theorem insert_bears (w : Text) (v : α) (t : Trie α) : (insert w v t).Bears := by
  induction w generalizing t with
  | nil => exact .here rfl
  | cons c w ih =>
    have hc : child? c (insert (c :: w) v t).children =
        some (insert w v ((child? c t.children).getD empty)) := by
      rw [insert, children_node, child?_setChild, if_pos rfl]
    exact .deeper (mem_of_child? hc) (ih _)

theorem Pruned.insert {t : Trie α} (h : t.Pruned) (w : Text) (v : α) : (insert w v t).Pruned := by
  induction w generalizing t with
  | nil => exact .node (fun _ _ hu => h.bears hu) (fun _ _ hu => h.child hu)
  | cons c w ih =>
    refine h.setChild (ih ?_) (insert_bears _ _ _) c
    cases hc : child? c t.children with
    | none => exact empty_pruned
    | some u => exact h.child (mem_of_child? hc)

theorem Pruned.remove {t : Trie α} (h : t.Pruned) (w : Text) : (remove w t).2.Pruned := by
  induction w generalizing t with
  | nil => exact .node (fun _ _ hu => h.bears hu) (fun _ _ hu => h.child hu)
  | cons c w ih =>
    rw [Trie.remove]
    split
    · exact h
    · rename_i u hc
      have hu : (Trie.remove w u).2.Pruned := ih (h.child (mem_of_child? hc))
      dsimp only
      split
      · have hsub := (dropChild_sublist c t.children).subset
        exact .node (fun _ _ hw => h.bears (hsub hw)) (fun _ _ hw => h.child (hsub hw))
      · rename_i hne
        exact h.setChild hu (hu.bears_of_not_isEmpty hne) c

/-- The removal of a word that is not there changes nothing. -/
theorem remove_of_absent {t : Trie α} (hp : t.Pruned) (w : Text) (h : find? w t = none) :
    (remove w t).2 = t := by
  induction w generalizing t with
  | nil =>
    obtain ⟨v, children⟩ := t
    rw [find?_nil, value_node] at h
    rw [h]
    rfl
  | cons c w ih =>
    rw [remove]
    cases hu : child? c t.children with
    | none => rfl
    | some u =>
      have hmem := mem_of_child? hu
      have hsame : (remove w u).2 = u := by
        refine ih (hp.child hmem) ?_
        rwa [find?_cons, hu] at h
      -- the branch bears another word, and so it is not pruned away
      have hkept : u.isEmpty = false := (hp.bears hmem).not_isEmpty
      simp only [hsame, hkept, Bool.false_eq_true, if_false, setChild_self hu]
      cases t
      rfl

/-! ## The same tree up to the order of branches -/

mutual

/-- The trees are the same up to the order of the branches at each node. -/
inductive Alike : Trie α → Trie α → Prop where
  | node {v : Option α} {cs ds es : List (Char × Trie α)} (branches : Branchwise cs ds)
      (order : ds.Perm es) : Alike (.node v cs) (.node v es)

/-- The branches are alike one by one. -/
inductive Branchwise : List (Char × Trie α) → List (Char × Trie α) → Prop where
  | nil : Branchwise [] []
  | cons {c : Char} {t u : Trie α} {cs ds : List (Char × Trie α)} (branch : Alike t u)
      (rest : Branchwise cs ds) : Branchwise ((c, t) :: cs) ((c, u) :: ds)

end

/-- Branches that have counterparts behind the same characters. -/
theorem Branchwise.ofChildren {cs : List (Char × Trie α)} {other : Char → Trie α}
    (h : ∀ c t, (c, t) ∈ cs → Alike t (other c)) :
    Branchwise cs (cs.map fun s => (s.1, other s.1)) := by
  induction cs with
  | nil => exact .nil
  | cons s r ih =>
    obtain ⟨c, t⟩ := s
    rw [List.map_cons]
    exact .cons (h c t List.mem_cons_self) (ih fun c t ht => h c t (List.mem_cons_of_mem _ ht))

/-- A character leads to a branch of a pruned tree if a word begins with it. -/
theorem Pruned.mem_keys {t : Trie α} (hp : t.Pruned) (ht : t.Proper) {c : Char} :
    c ∈ t.children.map Prod.fst ↔ ∃ w, (find? (c :: w) t).isSome := by
  constructor
  · intro hc
    obtain ⟨⟨_, u⟩, hu, rfl⟩ := List.mem_map.mp hc
    obtain ⟨w, hw⟩ := (bears_iff (ht.child hu)).mp (hp.bears hu)
    refine ⟨w, ?_⟩
    rwa [find?_cons, child?_of_mem ht.keys hu]
  · rintro ⟨w, hw⟩
    by_contra hc
    rw [find?_cons, child?_eq_none hc] at hw
    cases hw

/-- The words in a tree determine it. -/
theorem alike_of_find? {t u : Trie α} (ht : t.Proper) (hpt : t.Pruned) (hu : u.Proper)
    (hpu : u.Pruned) (h : ∀ w, find? w t = find? w u) : Alike t u := by
  -- by induction on what it is to be proper: the branches of a proper tree are proper
  induction ht generalizing u with
  | @node v cs hkeys hbelow ih =>
    obtain ⟨v', es⟩ := u
    have hv : v = v' := h []
    subst hv
    have hcs : (Trie.node v cs).Proper := .node hkeys hbelow
    let other : Char → Trie α := fun c => (child? c es).getD empty
    have hother : ∀ c t, (c, t) ∈ cs → child? c es = some (other c) := by
      intro c t hct
      have hc : c ∈ es.map Prod.fst := by
        refine (hpu.mem_keys hu).mpr ?_
        obtain ⟨w, hw⟩ := (hpt.mem_keys hcs).mp (List.mem_map.mpr ⟨_, hct, rfl⟩)
        exact ⟨w, h (c :: w) ▸ hw⟩
      obtain ⟨⟨_, e⟩, he, rfl⟩ := List.mem_map.mp hc
      have hfound := child?_of_mem hu.keys he
      simp only [children_node] at hfound
      simp only [other, hfound, Option.getD_some]
    have hbranches : Branchwise cs (cs.map fun s => (s.1, other s.1)) := by
      refine .ofChildren fun c t hct => ?_
      have hmem := mem_of_child? (hother c t hct)
      refine ih c t hct (hpt.child hct) (hu.child hmem) (hpu.child hmem) fun w => ?_
      have hw := h (c :: w)
      rw [find?_cons, find?_cons, children_node, children_node, child?_of_mem hkeys hct,
        hother c t hct] at hw
      exact hw
    refine .node hbranches ?_
    -- both lists have each character once, and the same ones
    have hds : (cs.map fun s => (s.1, other s.1)).Nodup := by
      refine List.Nodup.of_map Prod.fst ?_
      rwa [List.map_map]
    have hes : es.Nodup := List.Nodup.of_map _ hu.keys
    rw [List.perm_ext_iff_of_nodup hds hes]
    rintro ⟨c, e⟩
    constructor
    · intro hce
      obtain ⟨⟨c, t⟩, hct, he⟩ := List.mem_map.mp hce
      cases he
      exact mem_of_child? (hother c t hct)
    · intro hce
      have hc : c ∈ cs.map Prod.fst := by
        refine (hpt.mem_keys hcs).mpr ?_
        obtain ⟨w, hw⟩ := (hpu.mem_keys hu).mp (List.mem_map.mpr ⟨_, hce, rfl⟩)
        exact ⟨w, (h (c :: w)).symm ▸ hw⟩
      obtain ⟨⟨c, t⟩, hct, rfl⟩ := List.mem_map.mp hc
      refine List.mem_map.mpr ⟨(c, t), hct, ?_⟩
      have hfound := child?_of_mem hu.keys hce
      simp only [children_node, hother c t hct, Option.some.injEq] at hfound
      rw [hfound]

end Trie

namespace Symbols

/-! ## Tables and maps -/

/-- A map from words to values. -/
abbrev WordMap (α : Type) := Finmap fun _ : String => α

/-- What is done to a table. -/
inductive Edit (α : Type) where
  /-- give a word a value -/
  | insert (word : String) (v : α)
  /-- take a word out -/
  | remove (word : String)
  /-- take all words out -/
  | clear
  /-- begin anew with these words, of which a later one replaces an earlier one -/
  | ofList (pairs : List (String × α))
  /-- begin anew with words and values listed side by side, as far as both go -/
  | ofParallel (words : List String) (values : List α)

/-- The table after a step. -/
def edit (s : Symbols α) : Edit α → Symbols α
  | .insert word v => s.insert word v
  | .remove word => s.erase word
  | .clear => .empty
  | .ofList pairs => .ofList pairs
  | .ofParallel words values => .ofParallel words values

/-- The table made by these steps, the first one first. -/
def built (steps : List (Edit α)) : Symbols α := steps.foldl edit .empty

namespace WordMap

/-- The map of these words, of which a later one replaces an earlier one. -/
def ofList (pairs : List (String × α)) : WordMap α :=
  pairs.foldl (fun m p => m.insert p.1 p.2) ∅

/-- The map after a step. -/
def edit (m : WordMap α) : Edit α → WordMap α
  | .insert word v => m.insert word v
  | .remove word => m.erase word
  | .clear => ∅
  | .ofList pairs => ofList pairs
  | .ofParallel words values => ofList (words.zip values)

/-- The map made by these steps, the first one first. -/
def built (steps : List (Edit α)) : WordMap α := steps.foldl edit ∅

end WordMap

/-- The table holds the words of the map, counts them, and has a tree without dead branches. -/
structure Represents (s : Symbols α) (m : WordMap α) : Prop where
  find : ∀ word, s.find? word = m.lookup word
  size : s.size = m.keys.card
  proper : s.Proper
  pruned : s.root.Pruned

theorem find?_insert (s : Symbols α) (word x : String) (v : α) :
    (s.insert word v).find? x = if x = word then some v else s.find? x := by
  rw [find?, insert, Trie.find?_insert, find?]
  simp only [String.toList_inj]

theorem remove_fst (s : Symbols α) (word : String) : (s.remove word).1 = s.find? word :=
  Trie.remove_fst word.toList s.root

theorem find?_remove {s : Symbols α} (h : s.Proper) (word x : String) :
    (s.remove word).2.find? x = if x = word then none else s.find? x := by
  rw [find?, remove, find?]
  simp only [Trie.find?_remove h, String.toList_inj]

theorem remove_size (s : Symbols α) (word : String) :
    (s.remove word).2.size = if (s.find? word).isSome then s.size - 1 else s.size := by
  rw [← remove_fst]
  rfl

namespace Represents

variable {s : Symbols α} {m : WordMap α}

theorem mem_keys (h : s.Represents m) {word : String} :
    word ∈ m.keys ↔ (s.find? word).isSome = true := by
  rw [Finmap.mem_keys, ← Finmap.lookup_isSome, h.find]

theorem empty : (empty : Symbols α).Represents ∅ where
  find word := by
    rw [Finmap.lookup_empty]
    exact Trie.find?_empty word.toList
  size := rfl
  proper := empty_proper
  pruned := Trie.empty_pruned

theorem insert (h : s.Represents m) (word : String) (v : α) :
    (s.insert word v).Represents (m.insert word v) where
  find x := by
    rw [find?_insert]
    by_cases hx : x = word
    · rw [if_pos hx, hx, Finmap.lookup_insert]
    · rw [if_neg hx, Finmap.lookup_insert_of_ne _ hx, h.find]
  size := by
    have hkeys : (m.insert word v).keys = Insert.insert word m.keys := by
      ext x
      simp only [Finmap.mem_keys, Finmap.mem_insert, Finset.mem_insert]
    rw [hkeys, Symbols.insert]
    -- a word that is there already does not count again
    by_cases hword : word ∈ m.keys
    · rw [if_pos (h.mem_keys.mp hword), Finset.insert_eq_of_mem hword, h.size]
    · rw [if_neg fun hs => hword (h.mem_keys.mpr hs), Finset.card_insert_of_notMem hword, h.size]
  proper := h.proper.insert word v
  pruned := h.pruned.insert word.toList v

/-- A word that is there counts, and so the size of the table is not zero. -/
theorem size_pos (h : s.Represents m) {word : String} (hword : (s.find? word).isSome = true) :
    0 < s.size := by
  rw [h.size]
  exact Finset.card_pos.mpr ⟨word, h.mem_keys.mpr hword⟩

theorem remove (h : s.Represents m) (word : String) :
    (s.remove word).2.Represents (m.erase word) where
  find x := by
    rw [find?_remove h.proper]
    by_cases hx : x = word
    · rw [if_pos hx, hx, Finmap.lookup_erase]
    · rw [if_neg hx, Finmap.lookup_erase_ne hx, h.find]
  size := by
    rw [remove_size, Finmap.keys_erase]
    by_cases hword : word ∈ m.keys
    · rw [if_pos (h.mem_keys.mp hword), Finset.card_erase_of_mem hword, h.size]
    · rw [if_neg fun hs => hword (h.mem_keys.mpr hs), Finset.erase_eq_of_notMem hword, h.size]
  proper := h.proper.remove word
  pruned := h.pruned.remove word.toList

theorem ofList (pairs : List (String × α)) :
    (ofList pairs).Represents (WordMap.ofList pairs) := by
  have hfold : ∀ (s : Symbols α) (m : WordMap α), s.Represents m →
      (pairs.foldl (fun s p => s.insert p.1 p.2) s).Represents
        (pairs.foldl (fun m p => m.insert p.1 p.2) m) := by
    induction pairs with
    | nil => exact fun _ _ h => h
    | cons p pairs ih => exact fun _ _ h => ih _ _ (h.insert p.1 p.2)
  exact hfold _ _ empty

/-- A step on the table is the step on the map. -/
theorem edit (h : s.Represents m) (e : Edit α) : (s.edit e).Represents (m.edit e) := by
  cases e with
  | insert word v => exact h.insert word v
  | remove word => exact h.remove word
  | clear => exact empty
  | ofList pairs => exact ofList pairs
  | ofParallel words values => exact ofList (words.zip values)

/-- A table is the map of its history. -/
theorem built (steps : List (Edit α)) : (built steps).Represents (WordMap.built steps) := by
  have hfold : ∀ (s : Symbols α) (m : WordMap α), s.Represents m →
      (steps.foldl Symbols.edit s).Represents (steps.foldl WordMap.edit m) := by
    induction steps with
    | nil => exact fun _ _ h => h
    | cons e steps ih => exact fun _ _ h => ih _ _ (h.edit e)
  exact hfold _ _ empty

/-- A removal counts the word that it takes out. -/
theorem remove_size_succ (h : s.Represents m) {word : String}
    (hword : (s.find? word).isSome = true) : (s.remove word).2.size + 1 = s.size := by
  rw [remove_size, if_pos hword]
  exact Nat.sub_add_cancel (h.size_pos hword)

/-- The removal of a word that is not there leaves the table as it is, tree and all. -/
theorem remove_of_absent (h : s.Represents m) {word : String} (hword : s.find? word = none) :
    s.remove word = (none, s) := by
  have hroot : (s.root.remove word.toList).2 = s.root := Trie.remove_of_absent h.pruned _ hword
  have hfst : (s.root.remove word.toList).1 = none := (remove_fst s word).trans hword
  simp only [Symbols.remove, hroot, hfst, Option.isSome_none, Bool.false_eq_true, if_false]

/-- Tables of the same map are of the same size and have the same tree. -/
theorem alike (h : s.Represents m) {s' : Symbols α} (h' : s'.Represents m) :
    s.size = s'.size ∧ s.root.Alike s'.root := by
  refine ⟨h.size.trans h'.size.symm, Trie.alike_of_find? h.proper h.pruned h'.proper h'.pruned ?_⟩
  intro w
  have hw := (h.find (String.ofList w)).trans (h'.find (String.ofList w)).symm
  rwa [find?, find?, String.toList_ofList] at hw

end Represents

/-- A table is a finite map in canonical form. Whatever its history, it finds the words of the map
    of that history with their values and no other words, takes out the values that they have, and
    its size is their number, which each removal of a word that is there lowers by one. Its tree has
    no dead branches. The removal of a word that is not there changes nothing, and a history that
    makes the same map makes the same tree, up to the order of the branches. -/
theorem table_is_finite_map (steps : List (Edit α)) :
    (∀ word, (built steps).find? word = (WordMap.built steps).lookup word) ∧
    (∀ word, ((built steps).remove word).1 = (WordMap.built steps).lookup word) ∧
    (built steps).size = (WordMap.built steps).keys.card ∧
    (∀ word ∈ WordMap.built steps,
      ((built steps).remove word).2.size + 1 = (built steps).size) ∧
    (built steps).root.Pruned ∧
    (∀ word ∉ WordMap.built steps, (built steps).remove word = (none, built steps)) ∧
    ∀ steps', WordMap.built steps' = WordMap.built steps →
      (built steps').size = (built steps).size ∧
        (built steps').root.Alike (built steps).root := by
  have h := Represents.built steps
  refine ⟨h.find, fun word => (remove_fst _ word).trans (h.find word), h.size, fun word hword => ?_,
    h.pruned, fun word hword => ?_, fun steps' hsame => ?_⟩
  · exact h.remove_size_succ (h.mem_keys.mp (Finmap.mem_keys.mpr hword))
  · exact h.remove_of_absent ((h.find word).trans (Finmap.lookup_eq_none.mpr hword))
  · have h' := Represents.built steps'
    rw [hsame] at h'
    exact h'.alike h

/-- Words that begin with one another; one of them is taken out twice. -/
def numerals : List (Edit Nat) :=
  [.ofList [("i", 1), ("ii", 0), ("iii", 3), ("iv", 4), ("ii", 2)], .remove "ii", .insert "" 9,
    .remove "ii"]

/-- The same words in another order, and one more that goes again. -/
def reordered : List (Edit Nat) :=
  [.insert "x" 10, .clear, .ofParallel ["iv", "", "iii", "ix", "i", "surplus"] [4, 9, 3, 8, 1],
    .remove "ix"]

/-- The two histories make the same map, and so their trees differ in the order of branches only. -/
theorem table_is_finite_map_numerals :
    ((WordMap.built reordered = WordMap.built numerals ∧
      (built reordered).root.Alike (built numerals).root) ∧
    ("" ∈ WordMap.built numerals ∧
      ((built numerals).remove "").2.size + 1 = (built numerals).size)) ∧
    "ii" ∉ WordMap.built numerals ∧ (built numerals).remove "ii" = (none, built numerals) := by
  have hsame : WordMap.built reordered = WordMap.built numerals := by decide
  have hempty : "" ∈ WordMap.built numerals := by decide
  have habsent : "ii" ∉ WordMap.built numerals := by decide
  have h := table_is_finite_map numerals
  obtain ⟨-, -, -, hremove, -, hunchanged, hcanonical⟩ := h
  exact ⟨⟨⟨hsame, (hcanonical reordered hsame).2⟩, hempty, hremove "" hempty⟩, habsent,
    hunchanged "ii" habsent⟩

end Symbols

end Peg
