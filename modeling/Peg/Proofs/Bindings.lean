/-
  Peg.Proofs.Bindings

  Chains bind as nested scopes do. A look-up under a key is decided by the newest
  link that binds or hides the key, and the definition of a rule by the newest link
  that injects it, whatever else is on the chain. Each look-up and each edit is
  characterised by one such link and the links before and after it. What actions
  see is this look-up, and what the name of a rule stands for is that definition.
-/
import Peg.Parse.Run

namespace Peg

namespace Link

variable {β ρ : Type}

/-- The link binds the key or hides it. -/
def concerns (key : Key) : Link β ρ → Bool
  | .bind k _ | .hide k => k = key
  | .inject _ _ => false

theorem ne_of_bind {key k : Key} {v : β} (h : (bind k v : Link β ρ).concerns key = false) :
    k ≠ key := of_decide_eq_false h

theorem ne_of_hide {key k : Key} (h : (hide k : Link β ρ).concerns key = false) : k ≠ key :=
  of_decide_eq_false h

end Link

namespace Chain

variable {β ρ : Type} {key : Key} {c newer older : Chain β ρ}

/-- No link binds the key or hides it. -/
def Lacks (c : Chain β ρ) (key : Key) : Prop := ∀ l ∈ c, l.concerns key = false

/-- The chain hides nothing. -/
def Unmasked (c : Chain β ρ) : Prop := ∀ key, .hide key ∉ c

theorem lacks_nil (key : Key) : Lacks ([] : Chain β ρ) key := nofun

theorem Lacks.cons {l : Link β ρ} (hl : l.concerns key = false) (h : c.Lacks key) :
    Lacks (l :: c) key := List.forall_mem_cons.mpr ⟨hl, h⟩

/-- On a chain without masks, a key that is not bound is not concerned at all. -/
theorem Unmasked.lacks (h : c.Unmasked) (hkey : ∀ v, .bind key v ∉ c) : c.Lacks key := by
  intro l hl
  cases l with
  | bind k v =>
    have hne : k ≠ key := by
      rintro rfl
      exact hkey v hl
    simpa [Link.concerns] using hne
  | hide k => exact absurd hl (h k)
  | inject rule d => rfl

/-! ## Look-up -/

/-- Links that do not concern the key are passed over. -/
theorem find?_append (h : newer.Lacks key) : find? key (newer ++ older) = find? key older := by
  induction newer with
  | nil => rfl
  | cons l r ih =>
    obtain ⟨hl, hr⟩ := List.forall_mem_cons.mp h
    have hrest := ih hr
    cases l with
    | bind k v => rwa [List.cons_append, find?, if_neg (Link.ne_of_bind hl)]
    | hide k => rwa [List.cons_append, find?, if_neg (Link.ne_of_hide hl)]
    | inject rule d => exact hrest

theorem find?_bind (h : newer.Lacks key) (v : β) :
    find? key (newer ++ .bind key v :: older) = some v := by
  rw [find?_append h, find?, if_pos rfl]

theorem find?_hide (h : newer.Lacks key) :
    find? key (newer ++ .hide key :: older) = none := by
  rw [find?_append h, find?, if_pos rfl]

theorem find?_of_lacks (h : c.Lacks key) : find? key c = none := by
  have happend : find? key (c ++ []) = none := find?_append h
  rwa [List.append_nil] at happend

/-- A chain lacks a key, or there is a newest link that concerns it. -/
theorem lacks_or_newest (c : Chain β ρ) (key : Key) :
    c.Lacks key ∨ ∃ newer older : Chain β ρ, newer.Lacks key ∧
      ((∃ v, c = newer ++ .bind key v :: older) ∨ c = newer ++ .hide key :: older) := by
  induction c with
  | nil => exact .inl (lacks_nil key)
  | cons l r ih =>
    cases hl : l.concerns key with
    | true =>
      refine .inr ⟨[], r, lacks_nil key, ?_⟩
      cases l with
      | bind k v =>
        have hk : k = key := by simpa [Link.concerns] using hl
        exact .inl ⟨v, by rw [hk]; rfl⟩
      | hide k =>
        have hk : k = key := by simpa [Link.concerns] using hl
        exact .inr (by rw [hk]; rfl)
      | inject rule d => cases hl
    | false =>
      rcases ih with hr | ⟨newer, older, hnewer, hlink⟩
      · exact .inl (hr.cons hl)
      · refine .inr ⟨l :: newer, older, hnewer.cons hl, ?_⟩
        rcases hlink with ⟨v, rfl⟩ | rfl
        · exact .inl ⟨v, rfl⟩
        · exact .inr rfl

/-- A value is found if the newest link that concerns the key binds it. -/
theorem find?_eq_some {v : β} :
    find? key c = some v ↔
      ∃ newer older : Chain β ρ, c = newer ++ .bind key v :: older ∧ newer.Lacks key := by
  constructor
  · intro h
    rcases lacks_or_newest c key with hlacks | ⟨newer, older, hnewer, ⟨w, rfl⟩ | rfl⟩
    · rw [find?_of_lacks hlacks] at h
      cases h
    · rw [find?_bind hnewer] at h
      cases h
      exact ⟨newer, older, rfl, hnewer⟩
    · rw [find?_hide hnewer] at h
      cases h
  · rintro ⟨newer, older, rfl, hnewer⟩
    exact find?_bind hnewer v

/-- Nothing is found if no link concerns the key, or the newest one hides it. -/
theorem find?_eq_none :
    find? key c = none ↔
      c.Lacks key ∨
        ∃ newer older : Chain β ρ, c = newer ++ .hide key :: older ∧ newer.Lacks key := by
  constructor
  · intro h
    rcases lacks_or_newest c key with hlacks | ⟨newer, older, hnewer, ⟨w, rfl⟩ | rfl⟩
    · exact .inl hlacks
    · rw [find?_bind hnewer] at h
      cases h
    · exact .inr ⟨newer, older, rfl, hnewer⟩
  · rintro (hlacks | ⟨newer, older, rfl, hnewer⟩)
    · exact find?_of_lacks hlacks
    · exact find?_hide hnewer

/-! ## Injected rules -/

variable {rule : String} {d : ρ}

theorem injected?_append (h : ∀ d, .inject rule d ∉ newer) :
    injected? rule (newer ++ older) = injected? rule older := by
  induction newer with
  | nil => rfl
  | cons l r ih =>
    have hrest := ih fun d hd => h d (List.mem_cons_of_mem _ hd)
    cases l with
    | inject name d =>
      have hname : name ≠ rule := by
        rintro rfl
        exact h d List.mem_cons_self
      rwa [List.cons_append, injected?, if_neg hname]
    | bind k v => exact hrest
    | hide k => exact hrest

theorem injected?_inject (h : ∀ d, .inject rule d ∉ newer) (d : ρ) :
    injected? rule (newer ++ .inject rule d :: older) = some d := by
  rw [injected?_append h, injected?, if_pos rfl]

/-- A rule's definition is the one that the newest link for the rule injects. -/
theorem injected?_eq_some :
    injected? rule c = some d ↔
      ∃ newer older : Chain β ρ, c = newer ++ .inject rule d :: older ∧
        ∀ d', .inject rule d' ∉ newer := by
  constructor
  · intro h
    induction c with
    | nil => cases h
    | cons l r ih =>
      -- a link of another kind or for another rule is one of the newer ones
      have hpass (hl : ∀ d', l ≠ .inject rule d') (hr : injected? rule r = some d) :
          ∃ newer older : Chain β ρ, l :: r = newer ++ .inject rule d :: older ∧
            ∀ d', .inject rule d' ∉ newer := by
        obtain ⟨newer, older, rfl, hnewer⟩ := ih hr
        refine ⟨l :: newer, older, rfl, fun d' hd' => ?_⟩
        obtain he | hd' := List.mem_cons.mp hd'
        · exact hl d' he.symm
        · exact hnewer d' hd'
      cases l with
      | inject name d0 =>
        rw [injected?] at h
        split at h
        · rename_i hname
          cases h
          exact ⟨[], r, by rw [hname]; rfl, nofun⟩
        · rename_i hname
          refine hpass (fun d' he => hname ?_) h
          cases he
          rfl
      | bind k v => exact hpass nofun h
      | hide k => exact hpass nofun h
  · rintro ⟨newer, older, rfl, hnewer⟩
    exact injected?_inject hnewer d

/-! ## Everything in sight -/

theorem mem_keys_of_bind {v : β} (h : .bind key v ∈ c) : key ∈ keys c := by
  induction c with
  | nil => cases h
  | cons l r ih =>
    obtain rfl | h := List.mem_cons.mp h
    · rw [keys]
      split
      · assumption
      · exact List.mem_cons_self
    · have hr := ih h
      cases l with
      | bind k w =>
        rw [keys]
        split
        · exact hr
        · exact List.mem_cons_of_mem _ hr
      | hide k => exact hr
      | inject name d => exact hr

/-- What is found under a key is bound under it. -/
theorem mem_keys_of_find? {v : β} (h : find? key c = some v) : key ∈ keys c := by
  obtain ⟨newer, older, rfl, -⟩ := find?_eq_some.mp h
  exact mem_keys_of_bind (List.mem_append_right _ List.mem_cons_self)

/-- The entries in sight are what the look-ups give. -/
theorem mem_inSight {v : β} : (key, v) ∈ inSight c ↔ find? key c = some v := by
  rw [inSight, List.mem_filterMap]
  constructor
  · rintro ⟨k, -, hk⟩
    obtain ⟨w, hw, he⟩ := Option.map_eq_some_iff.mp hk
    cases he
    exact hw
  · intro h
    exact ⟨key, mem_keys_of_find? h, by rw [h]; rfl⟩

/-- A list with an entry for some of the keys, each determined by its key. -/
theorem lookup_filterMap {γ : Type} (f : Key → Option γ) (ks : List Key) (key : Key) :
    (ks.filterMap fun k => (f k).map fun v => (k, v)).lookup key =
      if key ∈ ks then f key else none := by
  induction ks with
  | nil => rfl
  | cons k ks ih =>
    rw [List.filterMap_cons]
    cases hk : f k with
    | none =>
      rw [Option.map_none, ih]
      by_cases hkey : key = k
      · subst hkey
        rw [if_pos List.mem_cons_self, hk, ite_self]
      · simp only [List.mem_cons, hkey, false_or]
    | some v =>
      rw [Option.map_some, List.lookup_cons]
      by_cases hkey : key = k
      · subst hkey
        rw [beq_self_eq_true, if_pos List.mem_cons_self, hk]
      · simp only [beq_eq_false_iff_ne.mpr hkey, ih, List.mem_cons, hkey, false_or]

end Chain

/-- An action sees under a key what the look-up gives, with the contents of cells for cells. -/
theorem State.lookup_values (st : State) (ctx : Ctx) (key : Key) :
    (st.values ctx).lookup key = (ctx.chain.find? key).bind st.valueOf? := by
  have hvalues : st.values ctx = ctx.chain.keys.filterMap fun k =>
      ((ctx.chain.find? k).bind st.valueOf?).map fun v => (k, v) := by
    rw [State.values, Chain.inSight, List.filterMap_filterMap]
    congr 1
    funext k
    cases ctx.chain.find? k <;> rfl
  rw [hvalues, Chain.lookup_filterMap fun k => (ctx.chain.find? k).bind st.valueOf?]
  by_cases hkey : key ∈ ctx.chain.keys
  · rw [if_pos hkey]
  · rw [if_neg hkey]
    -- a key that nothing is bound under has nothing in sight
    cases hfind : ctx.chain.find? key with
    | none => rfl
    | some b => exact absurd (Chain.mem_keys_of_find? hfind) hkey

/-- The name of a rule stands for the newest definition that is injected for it. -/
theorem parse_rule_of_injected (env : Env) (n : Nat) (r : Rule) (ctx : Ctx) (st : State)
    {d : Definition} (h : ctx.chain.injected? r.name = some d) :
    parse env (n + 1) (.rule r) ctx st = Node.call env (parse env n) r d ctx.outsideRules st := by
  rw [parse_succ, Node.step, Node.rule, h]
  rfl

namespace Chain

variable {β ρ : Type} {key : Key} {c newer older : Chain β ρ}

/-! ## Editing -/

theorem find?_append_congr (newer : Chain β ρ) {older' : Chain β ρ}
    (h : find? key older' = find? key older) :
    find? key (newer ++ older') = find? key (newer ++ older) := by
  induction newer with
  | nil => exact h
  | cons l r ih =>
    cases l with
    | bind k v => rw [List.cons_append, List.cons_append, find?, find?, ih]
    | hide k => rw [List.cons_append, List.cons_append, find?, find?, ih]
    | inject rule d => exact ih

theorem injected?_append_congr {rule : String} (newer : Chain β ρ) {older' : Chain β ρ}
    (h : injected? rule older' = injected? rule older) :
    injected? rule (newer ++ older') = injected? rule (newer ++ older) := by
  induction newer with
  | nil => exact h
  | cons l r ih =>
    cases l with
    | bind k v => exact ih
    | hide k => exact ih
    | inject name d => rw [List.cons_append, List.cons_append, injected?, injected?, ih]

/-- The chains have the same in sight but for one key, and the same rules injected. -/
structure SameBut (key : Key) (c c' : Chain β ρ) : Prop where
  find : ∀ k, k ≠ key → c'.find? k = c.find? k
  injected : ∀ rule, c'.injected? rule = c.injected? rule

/-- A binding that takes the place of another one of its key. -/
theorem SameBut.replace (newer older : Chain β ρ) (key : Key) (w v : β) :
    SameBut key (newer ++ .bind key w :: older) (newer ++ .bind key v :: older) where
  find k hk := by
    have hne : key ≠ k := fun h => hk h.symm
    apply find?_append_congr
    rw [find?, find?, if_neg hne, if_neg hne]
  injected rule := injected?_append_congr newer rfl

/-- A binding that goes. -/
theorem SameBut.remove (newer older : Chain β ρ) (key : Key) (w : β) :
    SameBut key (newer ++ .bind key w :: older) (newer ++ older) where
  find k hk := by
    have hne : key ≠ k := fun h => hk h.symm
    apply find?_append_congr
    rw [find?, if_neg hne]
  injected rule := injected?_append_congr newer rfl

theorem newest?_bind (h : newer.Lacks key) (w : β) :
    newest? key (newer ++ .bind key w :: older) = some w := by
  induction newer with
  | nil => rw [List.nil_append, newest?, if_pos rfl]
  | cons l r ih =>
    obtain ⟨hl, hr⟩ := List.forall_mem_cons.mp h
    have hrest := ih hr
    cases l with
    | bind k v => rwa [List.cons_append, newest?, if_neg (Link.ne_of_bind hl)]
    | hide k => exact hrest
    | inject rule d => exact hrest

theorem newest?_of_lacks (h : c.Lacks key) : newest? key c = none := by
  induction c with
  | nil => rfl
  | cons l r ih =>
    obtain ⟨hl, hr⟩ := List.forall_mem_cons.mp h
    have hrest := ih hr
    cases l with
    | bind k v => rwa [newest?, if_neg (Link.ne_of_bind hl)]
    | hide k => exact hrest
    | inject rule d => exact hrest

/-- Where nothing is hidden, the newest binding is the one in sight. -/
theorem Unmasked.newest? (h : c.Unmasked) (key : Key) : c.newest? key = c.find? key := by
  rcases lacks_or_newest c key with hlacks | ⟨newer, older, hnewer, ⟨w, rfl⟩ | rfl⟩
  · rw [newest?_of_lacks hlacks, find?_of_lacks hlacks]
  · rw [newest?_bind hnewer, find?_bind hnewer]
  · exact absurd (List.mem_append_right _ List.mem_cons_self) (h key)

/-- The first binding of the key is rewritten in its place. -/
theorem replaceFirst_bind (h : newer.Lacks key) (w v : β) :
    replaceFirst key v (newer ++ .bind key w :: older) = newer ++ .bind key v :: older := by
  induction newer with
  | nil => rw [List.nil_append, replaceFirst, if_pos rfl, List.nil_append]
  | cons l r ih =>
    obtain ⟨hl, hr⟩ := List.forall_mem_cons.mp h
    have hrest := congrArg (List.cons l) (ih hr)
    cases l with
    | bind k v => rwa [List.cons_append, replaceFirst, if_neg (Link.ne_of_bind hl)]
    | hide k => exact hrest
    | inject rule d => exact hrest

/-- The first binding of the key is taken out of its place. -/
theorem removeFirst_bind (h : newer.Lacks key) (w : β) :
    removeFirst key (newer ++ .bind key w :: older) = newer ++ older := by
  induction newer with
  | nil => rw [List.nil_append, removeFirst, if_pos rfl, List.nil_append]
  | cons l r ih =>
    obtain ⟨hl, hr⟩ := List.forall_mem_cons.mp h
    have hrest := congrArg (List.cons l) (ih hr)
    cases l with
    | bind k v => rwa [List.cons_append, removeFirst, if_neg (Link.ne_of_bind hl)]
    | hide k => exact hrest
    | inject rule d => exact hrest

end Chain

/-! ## Lexical binding -/

/-- Chains bind as nested scopes do. A look-up finds the value of the newest link that concerns the
    key, if that link binds it, and nothing otherwise, and actions see what it finds. A rule is
    parsed with the definition that the newest link for it injects, whatever is bound or hidden. On
    a chain that hides nothing, the newest binding of a key is the one in sight; to replace it
    changes this value alone, with the older ones in their places behind it, and to remove it brings
    the next older one into sight, or none, and changes nothing else. -/
theorem bindings_are_lexical {β ρ : Type} (c : Chain β ρ) (key : Key) :
    ((∀ v, c.find? key = some v ↔
        ∃ newer older : Chain β ρ, c = newer ++ .bind key v :: older ∧ newer.Lacks key) ∧
      (c.find? key = none ↔
        c.Lacks key ∨
          ∃ newer older : Chain β ρ, c = newer ++ .hide key :: older ∧ newer.Lacks key) ∧
      ∀ (ctx : Ctx) (st : State),
        (st.values ctx).lookup key = (ctx.chain.find? key).bind st.valueOf?) ∧
    ((∀ rule d, c.injected? rule = some d ↔
        ∃ newer older : Chain β ρ, c = newer ++ .inject rule d :: older ∧
          ∀ d', .inject rule d' ∉ newer) ∧
      ∀ (env : Env) (n : Nat) (r : Rule) (ctx : Ctx) (st : State) (d : Definition)
        (newer older : Chain Bound Definition), ctx.chain = newer ++ .inject r.name d :: older →
        (∀ d', .inject r.name d' ∉ newer) →
          parse env (n + 1) (.rule r) ctx st =
            Node.call env (parse env n) r d ctx.outsideRules st) ∧
    (c.Unmasked → c.newest? key = c.find? key ∧
      ∀ (newer older : Chain β ρ) (w : β), c = newer ++ .bind key w :: older →
        (∀ w', .bind key w' ∉ newer) →
          (c.newest? key = some w ∧
            ∀ v, c.replaceFirst key v = newer ++ .bind key v :: older ∧
              (c.replaceFirst key v).find? key = some v ∧
              (c.replaceFirst key v).removeFirst key = c.removeFirst key ∧
              c.SameBut key (c.replaceFirst key v)) ∧
          c.removeFirst key = newer ++ older ∧
          (c.removeFirst key).find? key = older.find? key ∧
          c.SameBut key (c.removeFirst key)) := by
  refine ⟨⟨fun v => Chain.find?_eq_some, Chain.find?_eq_none, fun ctx st =>
    st.lookup_values ctx key⟩, ⟨fun rule d => Chain.injected?_eq_some, ?_⟩, fun hc =>
    ⟨hc.newest? key, ?_⟩⟩
  · intro env n r ctx st d newer older hchain hnewer
    apply parse_rule_of_injected
    rw [hchain]
    exact Chain.injected?_inject hnewer d
  · rintro newer older w rfl hnewer
    have hlacks : newer.Lacks key :=
      Chain.Unmasked.lacks (fun k hk => hc k (List.mem_append_left _ hk)) hnewer
    rw [Chain.removeFirst_bind hlacks, Chain.newest?_bind hlacks]
    refine ⟨⟨rfl, fun v => ?_⟩, rfl, Chain.find?_append hlacks, .remove newer older key w⟩
    rw [Chain.replaceFirst_bind hlacks, Chain.removeFirst_bind hlacks]
    exact ⟨rfl, Chain.find?_bind hlacks v, rfl, .replace newer older key w v⟩

/-- Two depths, with a rule between the newer one and a name. -/
def nestedScopes : Chain Nat String :=
  [.bind "Name" 7, .inject "between" "body", .bind "Depth" 2, .bind "Depth" 1]

/-- The newer depth is replaced or removed, and the older one is behind it either way. -/
theorem bindings_are_lexical_nested :
    nestedScopes.Unmasked ∧ (∀ w, .bind "Depth" w ∉ nestedScopes.take 2) ∧
    nestedScopes.newest? "Depth" = some 2 ∧
    (nestedScopes.replaceFirst "Depth" 9).find? "Depth" = some 9 ∧
    (nestedScopes.removeFirst "Depth").find? "Depth" = some 1 ∧
    (nestedScopes.removeFirst "Depth").find? "Name" = some 7 := by
  have hunmasked : nestedScopes.Unmasked := by
    intro key
    simp [nestedScopes]
  have hnewer : ∀ w, .bind "Depth" w ∉ nestedScopes.take 2 := by
    intro w
    simp [nestedScopes]
  obtain ⟨-, -, hstatic⟩ := bindings_are_lexical nestedScopes "Depth"
  obtain ⟨-, hfirst⟩ := hstatic hunmasked
  obtain ⟨⟨hnewest, hreplace⟩, -, hfind, hremove⟩ :=
    hfirst (nestedScopes.take 2) [.bind "Depth" 1] 2 rfl hnewer
  refine ⟨hunmasked, hnewer, hnewest, (hreplace 9).2.1, hfind, ?_⟩
  exact hremove.find "Name" (by decide)

end Peg
