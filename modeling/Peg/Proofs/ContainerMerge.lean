/-
  Peg.Proofs.ContainerMerge

  To merge a value into a container is to push its leaves, from left to right
  (`merge?_pushes_leaves`). Whichever way the strategies take through options,
  alternatives, tuples and containers, what is pushed in the end are the plain
  and variant values that the value is made of, the characters of texts, or,
  for a container that stores pairs, its pairs. Each type reads like that if
  its parts do (`Reads`): one lemma for each way to build a type, and one
  induction over the types that can be read.
-/
import Peg.Proofs.FreshMerge
import Peg.Proofs.Comparable

namespace Peg

namespace Ty

section

variable [Declarations]

/-! ## Types that can be read -/

/-- Values of the type go into a container whole: what is assigned, and tuples where the container
    stores pairs. -/
def leaf (pairs : Bool) (t : Ty) : Bool :=
  match t.kind with
  | .plain | .variant => true
  | .tuple => pairs
  | _ => false

theorem kind_of_leaf {pairs : Bool} {t : Ty} (h : t.leaf pairs = true) :
    t.kind = .plain ∨ t.kind = .variant ∨ (pairs = true ∧ t.kind = .tuple) := by
  unfold leaf at h
  split at h
  · next hk => exact .inl hk
  · next hk => exact .inr (.inl hk)
  · next hk => exact .inr (.inr ⟨h, hk⟩)
  · cases h

theorem leaf_of_kind {pairs : Bool} {t : Ty} (h : t.kind = .plain ∨ t.kind = .variant) :
    t.leaf pairs = true := by
  unfold leaf
  rcases h with h | h <;> rw [h]

/-- What a container can have as items to be read: not nothing, and an alternative only between
    leaves. -/
def legible (pairs : Bool) : Ty → Bool
  | .unused => false
  | .either l r => l.leaf pairs && r.leaf pairs
  | _ => true

theorem kind_of_legible {pairs : Bool} {t : Ty} (h : t.legible pairs = true) :
    (t.kind = .tuple ∨ t.kind = .option ∨ t.kind = .container) ∨
      (t.kind = .plain ∨ t.kind = .variant) ∨ ∃ l r, t = .either l r := by
  cases t with
  | unused => cases h
  | user u => exact .inr (.inl (declared u).kind_cases)
  | either l r => exact .inr (.inr ⟨l, r, rfl⟩)
  | _ => simp [kind]

theorem leaf_user {pairs : Bool} (u : UserTy) : (Ty.user u).leaf pairs = true :=
  leaf_of_kind (declared u).kind_cases

theorem strategy_assigned {i t : Ty} (hi : i.kind = .plain ∨ i.kind = .variant)
    (ht : t.kind = .plain ∨ t.kind = .variant) : strategy i t = .convert := by
  have hother : ∀ {t : Ty}, t.kind = .plain ∨ t.kind = .variant →
      (∃ k, t = .int k) ∨ (∃ c, t = .scalar c) ∨ (∃ u, t = .user u) ∨ ∃ b, t = .box b := by
    intro t ht
    cases t with
    | int | scalar | user | box => simp
    | _ => rcases ht with ht | ht <;> cases ht
  rcases hother hi with ⟨_, rfl⟩ | ⟨_, rfl⟩ | ⟨_, rfl⟩ | ⟨_, rfl⟩ <;>
    rcases hother ht with ⟨_, rfl⟩ | ⟨_, rfl⟩ | ⟨_, rfl⟩ | ⟨_, rfl⟩ <;> rfl

theorem strategy_either {d i : Ty} (hi : d.item? = some i) (l r : Ty) :
    strategy d (.either l r) = .unwrap l r := by
  cases d with
  | text | list | map => rfl
  | _ => cases hi

section

variable {i j : Ty} (hi : i.kind = .plain ∨ i.kind = .variant ∨ i.kind = .tuple)

include hi

theorem containerStrategy_mergeEach
    (hj : j.kind = .tuple ∨ j.kind = .option ∨ j.kind = .container) :
    containerStrategy i j = .mergeEach j := by
  unfold containerStrategy
  rcases hi with hi | hi | hi <;> rcases hj with hj | hj | hj <;> simp [hi, hj]

theorem containerStrategy_pushEach
    (hj : j.kind = .plain ∨ j.kind = .variant ∨ j.kind = .either) :
    containerStrategy i j = .pushEach i j := by
  unfold containerStrategy
  rcases hi with hi | hi | hi <;> rcases hj with hj | hj | hj <;> simp [hi, hj]

end

mutual

/-- Values of the type are read from left to right: whatever is built from leaves, options,
    alternatives, tuples and containers with an order. -/
def readable (pairs : Bool) : Ty → Bool
  | .unused | .int _ | .scalar _ | .user _ | .box _ | .text => true
  | .option t => readable pairs t
  | .either l r => readable pairs l && readable pairs r
  | .tuple ts => pairs || readables pairs ts
  | .list c t => c != .hashSet && legible pairs t && readable pairs t
  | .map c k t => c == .tree && (pairs || readable pairs k && readable pairs t)

def readables (pairs : Bool) : List Ty → Bool
  | [] => true
  | t :: ts => readable pairs t && readables pairs ts

end

end

end Ty

namespace Value

/-! ## Leaves -/

/-- The leaves of a pair, by those of its slots. -/
def pairLeaves (f g : Value → List (Ty × Value)) : Value → List (Ty × Value)
  | .tuple [x, y] => f x ++ g y
  | _ => []

mutual

/-- The leaves of a value with their types, from left to right: the plain and variant values that
    it is made of, a text being its characters and an alternative its active side. Where `pairs`
    are read, a tuple is a leaf. -/
def leaves (pairs : Bool) : Ty → Value → List (Ty × Value)
  | .unused, _ => []
  | .text, .text s => s.toList.map fun c => (Ty.char, .char c)
  | .option t, .some v => leaves pairs t v
  | .either l _, .left v => leaves pairs l v
  | .either _ r, .right v => leaves pairs r v
  | .tuple ts, .tuple vs => if pairs then [(.tuple ts, .tuple vs)] else leavesOfSlots pairs ts vs
  | .list _ t, .seq vs => vs.flatMap (leaves pairs t)
  | .map _ k t, .seq vs =>
    if pairs then vs.map fun v => (.tuple [k, t], v)
    else vs.flatMap (pairLeaves (leaves pairs k) (leaves pairs t))
  | .int k, v => [(.int k, v)]
  | .scalar c, v => [(.scalar c, v)]
  | .user u, v => [(.user u, v)]
  | .box t, v => [(.box t, v)]
  | _, _ => []

def leavesOfSlots (pairs : Bool) : List Ty → List Value → List (Ty × Value)
  | t :: ts, v :: vs => leaves pairs t v ++ leavesOfSlots pairs ts vs
  | _, _ => []

end

/-- A loop over the leaves of items is a loop over the items. -/
theorem foldlM_flatMap {x : Value} {vs : List Value}
    {g : Value → List (Ty × Value)} {f : Value → Ty × Value → Option Value} :
    (vs.flatMap g).foldlM f x = vs.foldlM (fun x v => (g v).foldlM f x) x := by
  induction vs generalizing x with
  | nil => rfl
  | cons v vs ih => simp [ih]

section

variable [Conversions]

/-- The item of type `i` that a leaf becomes: the leaf converted, or the pair slot by slot. -/
def converted? (i : Ty) (l : Ty × Value) : Option Value :=
  if i.kind = .tuple then merge? i l.1 (default i) l.2 else convert? i l.1 l.2

/-- Push the item that a leaf becomes. -/
def pushLeaf? (d i : Ty) (x : Value) (l : Ty × Value) : Option Value := pushAs? d i l.1 x l.2

variable {d i j s t l r : Ty} {ts : List Ty} {pairs : Bool} {v x : Value} {vs : List Value}

theorem leaves_leaf (ht : t.leaf pairs = true) (hv : isOf t v = true) :
    leaves pairs t v = [(t, v)] := by
  cases t with
  | tuple ts =>
    obtain ⟨vs, rfl, -⟩ := isOf_tuple.mp hv
    have hpairs : pairs = true := ht
    rw [leaves, if_pos hpairs]
  | int | scalar | user | box => rw [leaves]
  | _ => cases ht

/-- The leaves of a container are those of its items. -/
theorem leaves_pack (hj : s.item? = Option.some j) (hvs : Contents s j vs) :
    leaves pairs s (pack s vs) = vs.flatMap (leaves pairs j) := by
  cases s with
  | text =>
    cases hj
    obtain ⟨cs, rfl⟩ := chars_of_typed hvs.typed
    rw [pack_chars, leaves, String.toList_ofList, List.flatMap_map]
    exact List.map_eq_flatMap
  | list c t =>
    cases hj
    rw [pack, leaves]
    exact fun h => by cases h
  | map c k t =>
    cases hj
    rw [pack, leaves]
    · cases pairs with
      | true =>
        rw [if_pos rfl, List.map_eq_flatMap]
        exact List.flatMap_congr fun v hv => (leaves_leaf rfl (hvs.typed v hv)).symm
      | false =>
        rw [if_neg Bool.false_ne_true]
        refine List.flatMap_congr fun v hv => ?_
        obtain ⟨x, y, rfl, -⟩ := isOf_pair.mp (hvs.typed v hv)
        simp [leaves, leavesOfSlots, pairLeaves]
    · exact fun h => by cases h
  | _ => cases hj

/-! ## Reading type by type -/

/-- To merge a value of type `s` into a container of type `d` is to push its leaves; and where the
    types go together, the types of the leaves go with the items. -/
structure Reads (d i : Ty) (pairs : Bool) (s : Ty) : Prop where
  merge : ∀ x v, isOf s v = true → merge? d s x v = (leaves pairs s v).foldlM (pushLeaf? d i) x
  leaf : Ty.accepts d s = true → ∀ v, isOf s v = true → ∀ l ∈ leaves pairs s v,
    l.1.leaf pairs = true ∧ Ty.accepts i l.1 = true ∧ isOf l.1 l.2 = true

/-- A container of type `d` stores items of type `i`: pairs, or what is assigned. -/
structure Stores (d i : Ty) (pairs : Bool) : Prop where
  item : d.item? = Option.some i
  whole : pairs = true → i.kind = .tuple
  assigned : pairs = false → i.kind = .plain ∨ i.kind = .variant

theorem stores_assigned (hi : d.item? = Option.some i) (hk : i.kind = .plain ∨ i.kind = .variant) :
    Stores d i false :=
  ⟨hi, (by cases ·), fun _ => hk⟩

theorem stores_map (c : MapKind) (k t : Ty) : Stores (.map c k t) (.tuple [k, t]) true :=
  ⟨rfl, fun _ => rfl, (by cases ·)⟩

theorem Stores.kind_of (hd : Stores d i pairs) :
    i.kind = .plain ∨ i.kind = .variant ∨ i.kind = .tuple := by
  cases pairs with
  | true => exact .inr (.inr (hd.whole rfl))
  | false => exact (hd.assigned rfl).imp_right .inl

theorem leavesOfSlots_leaf (h : ∀ t ∈ ts, Reads d i pairs t)
    (hacc : ∀ t ∈ ts, Ty.accepts d t = true)
    (hvs : List.Forall₂ (fun t v => isOf t v = true) ts vs) :
    ∀ l ∈ leavesOfSlots pairs ts vs,
      l.1.leaf pairs = true ∧ Ty.accepts i l.1 = true ∧ isOf l.1 l.2 = true := by
  induction hvs with
  | nil =>
    intro l hl
    cases hl
  | cons hv _ ih =>
    intro l hl
    rw [leavesOfSlots, List.mem_append] at hl
    rcases hl with hl | hl
    · exact (h _ List.mem_cons_self).leaf (hacc _ List.mem_cons_self) _ hv l hl
    · exact ih (fun t ht => h t (List.mem_cons_of_mem _ ht))
        (fun t ht => hacc t (List.mem_cons_of_mem _ ht)) l hl

theorem mergeInOrder_leaves (h : ∀ t ∈ ts, Reads d i pairs t)
    (hvs : List.Forall₂ (fun t v => isOf t v = true) ts vs) (x : Value) :
    mergeInOrder (ts.map (merge? d)) x vs =
      (leavesOfSlots pairs ts vs).foldlM (pushLeaf? d i) x := by
  induction hvs generalizing x with
  | nil => rfl
  | cons hv _ ih =>
    have hhead := (h _ List.mem_cons_self).merge x _ hv
    have hrest := ih fun t ht => h t (List.mem_cons_of_mem _ ht)
    rw [List.map_cons, mergeInOrder, leavesOfSlots, List.foldlM_append, hhead]
    exact congrArg _ (funext hrest)

section Reading

variable (hd : Stores d i pairs)

include hd

theorem reads_unused : Reads d i pairs .unused := by
  have hstrat : Ty.strategy d .unused = .keep := by cases d <;> rfl
  refine ⟨fun x v _ => ?_, fun _ v _ l hl => ?_⟩
  · rw [merge?_keep hstrat, leaves]
    rfl
  · rw [leaves] at hl
    cases hl

/-- A leaf is pushed. -/
theorem strategy_leaf (ht : t.leaf pairs = true) : Ty.strategy d t = .push i := by
  have hk := Ty.kind_of_leaf ht
  rw [Ty.strategy_container hd.item]
  · cases t with
    | tuple ts => exact if_pos (hd.whole ht)
    | int | scalar | user | box => rfl
    | _ => cases ht
  · rcases hk with hk | hk | ⟨-, hk⟩ <;> simp [hk]

theorem reads_leaf (ht : t.leaf pairs = true) : Reads d i pairs t := by
  have hstrat := strategy_leaf hd ht
  refine ⟨fun x v hv => ?_, fun hacc v hv l hl => ?_⟩
  · rw [merge?_push hstrat, leaves_leaf ht hv, List.foldlM_cons, pushLeaf?]
    exact (bind_pure _).symm
  · rw [leaves_leaf ht hv] at hl
    obtain rfl := List.mem_singleton.mp hl
    rw [Ty.accepts_eq, hstrat] at hacc
    exact ⟨ht, hacc, hv⟩

theorem reads_option (h : Reads d i pairs t) : Reads d i pairs (.option t) := by
  have hstrat : Ty.strategy d (.option t) = .mergeSome t := by
    rw [Ty.strategy_container hd.item (by simp [Ty.kind])]
    refine if_neg ?_
    rcases hd.kind_of with hk | hk | hk <;> simp [hk]
  refine ⟨fun x v hv => ?_, fun hacc v hv l hl => ?_⟩
  · rcases isOf_option.mp hv with rfl | ⟨w, rfl, hw⟩
    · rw [merge?_mergeSome_none hstrat]
      simp [leaves]
    · rw [merge?_mergeSome_some hstrat, leaves]
      exact h.merge x w hw
  · rw [Ty.accepts_eq, hstrat] at hacc
    rcases isOf_option.mp hv with rfl | ⟨w, rfl, hw⟩
    · simp [leaves] at hl
    · rw [leaves] at hl
      exact h.leaf hacc w hw l hl

theorem reads_either (hl : Reads d i pairs l) (hr : Reads d i pairs r) :
    Reads d i pairs (.either l r) := by
  have hstrat := Ty.strategy_either hd.item l r
  refine ⟨fun x v hv => ?_, fun hacc v hv u hu => ?_⟩
  · rcases isOf_either.mp hv with ⟨w, rfl, hw⟩ | ⟨w, rfl, hw⟩
    · rw [merge?_left hstrat, leaves]
      exact hl.merge x w hw
    · rw [merge?_right hstrat, leaves]
      exact hr.merge x w hw
  · rw [Ty.accepts_eq, hstrat, Bool.and_eq_true] at hacc
    rcases isOf_either.mp hv with ⟨w, rfl, hw⟩ | ⟨w, rfl, hw⟩
    · rw [leaves] at hu
      exact hl.leaf hacc.1 w hw u hu
    · rw [leaves] at hu
      exact hr.leaf hacc.2 w hw u hu

theorem reads_tuple (h : pairs = true ∨ ∀ t ∈ ts, Reads d i pairs t) :
    Reads d i pairs (.tuple ts) := by
  cases hp : pairs with
  | true => exact hp ▸ reads_leaf hd hp
  | false =>
    have hslots : ∀ t ∈ ts, Reads d i pairs t := h.resolve_left (by simp [hp])
    have hstrat : Ty.strategy d (.tuple ts) = .spread ts := by
      rw [Ty.strategy_container hd.item (by simp [Ty.kind])]
      refine if_neg fun hk => ?_
      rcases hd.assigned hp with hk' | hk' <;> simp [hk'] at hk
    -- where pairs are not read, a tuple is its slots
    have hleaves : ∀ vs, leaves false (.tuple ts) (.tuple vs) = leavesOfSlots false ts vs :=
      fun _ => rfl
    subst hp
    refine ⟨fun x v hv => ?_, fun hacc v hv l hl => ?_⟩
    · obtain ⟨vs, rfl, hvs⟩ := isOf_tuple.mp hv
      rw [merge?_spread hstrat, hleaves]
      exact mergeInOrder_leaves hslots hvs x
    · rw [Ty.accepts_eq, hstrat] at hacc
      obtain ⟨vs, rfl, hvs⟩ := isOf_tuple.mp hv
      rw [hleaves] at hl
      exact leavesOfSlots_leaf hslots (List.all_eq_true.mp hacc) hvs l hl

/-- To rebuild a leaf as an item and to push that is to merge the leaf into the container. -/
theorem pushAs?_leaf (ht : t.leaf pairs = true) :
    Ty.accepts i t = Ty.accepts d t ∧ ∀ x v, pushAs? d i t x v = merge? d t x v :=
  have hstrat := strategy_leaf hd ht
  ⟨(Ty.accepts_push hstrat).symm, fun _ _ => (merge?_push hstrat).symm⟩

theorem pushAs?_either (hl : l.leaf pairs = true) (hr : r.leaf pairs = true) :
    Ty.accepts i (.either l r) = Ty.accepts d (.either l r) ∧
      ∀ x v, isOf (.either l r) v = true →
        pushAs? d i (.either l r) x v = merge? d (.either l r) x v := by
  have hitem : Ty.strategy i (.either l r) = .unwrap l r := by
    rcases hd.kind_of with hk | hk | hk <;> cases i <;> first | rfl | cases hk
  have hcontainer := Ty.strategy_either hd.item l r
  obtain ⟨hacc, hpush⟩ := pushAs?_leaf hd hl
  obtain ⟨hacc', hpush'⟩ := pushAs?_leaf hd hr
  refine ⟨?_, fun x v hv => ?_⟩
  · rw [Ty.accepts_unwrap hitem, Ty.accepts_unwrap hcontainer, hacc, hacc']
  · rcases isOf_either.mp hv with ⟨w, rfl, -⟩ | ⟨w, rfl, -⟩
    · rw [pushAs?, merge?_left hitem, merge?_left hcontainer, ← hpush, pushAs?]
    · rw [pushAs?, merge?_right hitem, merge?_right hcontainer, ← hpush', pushAs?]

omit hd in
theorem merge?_items_pushed (hstrat : Ty.strategy d s = .pushEach i j)
    (hacc : Ty.accepts i j = Ty.accepts d j)
    (hpush : ∀ x v, isOf j v = true → pushAs? d i j x v = merge? d j x v) :
    Ty.accepts d s = Ty.accepts d j ∧
      ∀ x vs, Contents s j vs → merge? d s x (pack s vs) = vs.foldlM (merge? d j) x := by
  refine ⟨(Ty.accepts_pushEach hstrat).trans hacc, fun x vs hvs => ?_⟩
  rw [merge?_pushEach hstrat hvs]
  exact foldlM_congr (fun v hv x => hpush x v (hvs.typed v hv)) x

/-- Whichever strategy two containers have, the items are merged one after the other. -/
theorem merge?_items (hj : s.item? = Option.some j) (hlegible : j.legible pairs = true) :
    Ty.accepts d s = Ty.accepts d j ∧
      ∀ x vs, Contents s j vs → merge? d s x (pack s vs) = vs.foldlM (merge? d j) x := by
  have hinto := Ty.strategy_into hd.item hj
  rcases Ty.kind_of_legible hlegible with hk | hk | ⟨l, r, rfl⟩
  · have hstrat := hinto.trans (Ty.containerStrategy_mergeEach hd.kind_of hk)
    exact ⟨Ty.accepts_mergeEach hstrat, fun x vs hvs => merge?_mergeEach hstrat hvs⟩
  · have hstrat := hinto.trans (Ty.containerStrategy_pushEach hd.kind_of (hk.imp_right .inl))
    obtain ⟨hacc, hpush⟩ := pushAs?_leaf hd (Ty.leaf_of_kind hk)
    exact merge?_items_pushed hstrat hacc fun x v _ => hpush x v
  · have hstrat := hinto.trans (Ty.containerStrategy_pushEach hd.kind_of (.inr (.inr rfl)))
    obtain ⟨hl, hr⟩ := Bool.and_eq_true_iff.mp hlegible
    obtain ⟨hacc, hpush⟩ := pushAs?_either hd hl hr
    exact merge?_items_pushed hstrat hacc hpush

theorem reads_container (hj : s.item? = Option.some j) (hlegible : j.legible pairs = true)
    (h : Reads d i pairs j) : Reads d i pairs s := by
  obtain ⟨haccepts, hmerge⟩ := merge?_items hd hj hlegible
  refine ⟨fun x v hv => ?_, fun hacc v hv l hl => ?_⟩
  · obtain ⟨vs, rfl, hvs⟩ := (isOf_container hj).mp hv
    rw [hmerge x vs hvs, leaves_pack hj hvs, foldlM_flatMap]
    exact foldlM_congr (fun v hv x => h.merge x v (hvs.typed v hv)) x
  · obtain ⟨vs, rfl, hvs⟩ := (isOf_container hj).mp hv
    rw [leaves_pack hj hvs, List.mem_flatMap] at hl
    obtain ⟨w, hw, hl⟩ := hl
    rw [haccepts] at hacc
    exact h.leaf hacc w (hvs.typed w hw) l hl

end Reading

mutual

/-- Every readable type reads from left to right. -/
theorem reads_all (hd : Stores d i pairs) :
    ∀ s : Ty, s.readable pairs = true → Reads d i pairs s
  | .unused, _ => reads_unused hd
  | .int _, _ | .scalar _, _ | .box _, _ => reads_leaf hd rfl
  | .user u, _ => reads_leaf hd (Ty.leaf_user u)
  | .text, _ => reads_container hd rfl rfl (reads_leaf hd rfl)
  | .option t, h => reads_option hd (reads_all hd t h)
  | .either l r, h =>
    have ⟨hl, hr⟩ := Bool.and_eq_true_iff.mp h
    reads_either hd (reads_all hd l hl) (reads_all hd r hr)
  | .tuple ts, h => reads_tuple hd <| (Bool.or_eq_true_iff.mp h).imp_right (reads_each hd ts)
  | .list _ t, h =>
    have ⟨hitem, ht⟩ := Bool.and_eq_true_iff.mp h
    reads_container hd rfl (Bool.and_eq_true_iff.mp hitem).2 (reads_all hd t ht)
  -- the entries of a map are pairs, of which the slots are read where pairs are not
  | .map _ k t, h =>
    have hpair := (Bool.or_eq_true_iff.mp (Bool.and_eq_true_iff.mp h).2).imp_right fun h =>
      have ⟨hk, ht⟩ := Bool.and_eq_true_iff.mp h
      List.forall_mem_cons.mpr
        ⟨reads_all hd k hk, List.forall_mem_singleton.mpr (reads_all hd t ht)⟩
    reads_container hd rfl rfl (reads_tuple hd hpair)

theorem reads_each (hd : Stores d i pairs) :
    ∀ ts : List Ty, Ty.readables pairs ts = true → ∀ t ∈ ts, Reads d i pairs t
  | [], _ => fun _ ht => absurd ht List.not_mem_nil
  | t :: ts, h =>
    have ⟨ht, hts⟩ := Bool.and_eq_true_iff.mp h
    List.forall_mem_cons.mpr ⟨reads_all hd t ht, reads_each hd ts hts⟩

end

/-! ## What is pushed -/

/-- A leaf becomes an item by its conversion, or slot by slot where pairs are stored. -/
theorem converted?_eq (hd : Stores d i pairs) {l : Ty × Value} (hl : l.1.leaf pairs = true) :
    merge? i l.1 (default i) l.2 = converted? i l := by
  unfold converted?
  split
  · rfl
  · next htuple =>
    have hp : pairs = false := Bool.eq_false_iff.mpr fun hp => htuple (hd.whole hp)
    have hk : l.1.kind = .plain ∨ l.1.kind = .variant := by
      rcases Ty.kind_of_leaf hl with hk | hk | ⟨hp', -⟩
      · exact .inl hk
      · exact .inr hk
      · rw [hp] at hp'
        cases hp'
    exact merge?_convert (Ty.strategy_assigned (hd.assigned hp) hk)

/-- Where the leaves go into the items, each becomes an item, and those are pushed in order. -/
theorem pushLeaves_total (hd : Stores d i pairs) {ls : List (Ty × Value)}
    (h : ∀ l ∈ ls, l.1.leaf pairs = true ∧ Ty.accepts i l.1 = true ∧ isOf l.1 l.2 = true) :
    ∃ vs, ls.mapM (converted? i) = Option.some vs ∧ (∀ v ∈ vs, isOf i v = true) ∧
      ∀ x, ls.foldlM (pushLeaf? d i) x = vs.foldlM (push? d) x := by
  induction ls with
  | nil => exact ⟨[], rfl, fun _ hv => absurd hv List.not_mem_nil, fun _ => rfl⟩
  | cons l ls ih =>
    obtain ⟨hleaf, hacc, htyped⟩ := h l List.mem_cons_self
    obtain ⟨w, hmerge, hw⟩ := Total.fresh (merge?_total hacc) htyped
    obtain ⟨vs, hmap, hvs, hfold⟩ := ih fun u hu => h u (List.mem_cons_of_mem l hu)
    have hconv : converted? i l = Option.some w := (converted?_eq hd hleaf).symm.trans hmerge
    refine ⟨w :: vs, ?_, List.forall_mem_cons.mpr ⟨hw, hvs⟩, fun x => ?_⟩
    · simp [List.mapM_cons, hconv, hmap]
    · rw [List.foldlM_cons, List.foldlM_cons, pushLeaf?, pushAs?, hmerge, Option.bind_some]
      exact congrArg _ (funext hfold)

/-- A leaf that has the type of the items becomes an item as it is. -/
theorem converted?_same {l : Ty × Value} (hl : isOf l.1 l.2 = true) (hi : l.1 = i) :
    converted? i l = Option.some l.2 := by
  subst hi
  unfold converted?
  split
  · exact fresh_all l.1 l.2 hl
  · exact convert?_self l.1 l.2

/-! ## What a container holds afterwards -/

/-- The items of a container. -/
def contents (v : Value) : List Value := (items? v).getD []

/-- The first entry with a key. -/
def entryAt? (k : Value) (es : List Value) : Option Value :=
  es.find? fun e => order k (key e) == .eq

/-- What a container `x` of type `d` holds once `vs` were pushed, as `y`. A text or a sequence has
    them behind what it had. A set keeps what it had and has their members besides, whatever their
    order and however often each comes. A map has at each key the last entry of `vs` with it, or
    else the entry that it had there. -/
def Gathers (d : Ty) (x : Value) (vs : List Value) (y : Value) : Prop :=
  match d with
  | .list .treeSet i | .list .hashSet i =>
    (∀ a ∈ contents x, a ∈ contents y) ∧
      (i.comparable = true →
        (∀ a, a ∈ contents y ↔ a ∈ contents x ∨ a ∈ vs) ∧
        ∀ ws : List Value, (∀ a, a ∈ ws ↔ a ∈ vs) → ws.foldlM (push? d) x = Option.some y)
  | .map _ _ _ =>
    ∀ k, entryAt? k (contents y) = (entryAt? k vs.reverse).or (entryAt? k (contents x))
  | _ => contents y = contents x ++ vs

section Gathering

variable {xs : List Value}

theorem contents_pack (hi : d.item? = Option.some i) (h : Contents d i xs) :
    contents (pack d xs) = xs := by
  rw [contents, items?_pack hi h, Option.getD_some]

variable (hi : d.item? = Option.some i) (hxs : Contents d i xs)
  (hvs : ∀ v ∈ vs, isOf i v = true)

include hi hxs hvs

theorem contents_pushed :
    contents (pack d (vs.foldl (added d) xs)) = vs.foldl (added d) xs :=
  contents_pack hi (hxs.foldl_added hvs)

theorem gathers_sequence (hd : placing d = Option.none) :
    contents (pack d (vs.foldl (added d) xs)) = contents (pack d xs) ++ vs := by
  rw [contents_pushed hi hxs hvs, contents_pack hi hxs, foldl_added_of_none hd]

theorem gathers_map (hd : placing d = Option.some (key, true)) (k : Value) :
    entryAt? k (contents (pack d (vs.foldl (added d) xs))) =
      (entryAt? k vs.reverse).or (entryAt? k (contents (pack d xs))) := by
  rw [contents_pushed hi hxs hvs, contents_pack hi hxs, foldl_added_of_placing hd]
  exact find_insertAll k xs vs

theorem gathers_set (hd : placing d = Option.some (id, false)) :
    (∀ a ∈ contents (pack d xs), a ∈ contents (pack d (vs.foldl (added d) xs))) ∧
      (i.comparable = true →
        (∀ a, a ∈ contents (pack d (vs.foldl (added d) xs)) ↔
          a ∈ contents (pack d xs) ∨ a ∈ vs) ∧
        ∀ ws : List Value, (∀ a, a ∈ ws ↔ a ∈ vs) →
          ws.foldlM (push? d) (pack d xs) = Option.some (pack d (vs.foldl (added d) xs))) := by
  rw [contents_pushed hi hxs hvs, contents_pack hi hxs, foldl_added_of_placing hd]
  refine ⟨fun a ha => mem_insertAll_of_mem ha, fun hcomparable => ?_⟩
  have happart := apart_of_comparable i hcomparable
  refine ⟨fun a => mem_insertAll happart hxs.typed hvs, fun ws hws => ?_⟩
  have htyped : ∀ w ∈ ws, isOf i w = true := fun w hw => hvs w ((hws w).mp hw)
  rw [pushAll_pack hi hxs htyped, foldl_added_of_placing hd,
    insertAll_congr happart (hxs.sorted id false hd) hxs.typed hvs hws]

theorem gathers_pack : Gathers d (pack d xs) vs (pack d (vs.foldl (added d) xs)) := by
  unfold Gathers
  split
  · cases hi
    exact gathers_set rfl hxs hvs rfl
  · cases hi
    exact gathers_set rfl hxs hvs rfl
  · exact gathers_map hi hxs hvs rfl
  · next hset hhash hmap =>
    refine gathers_sequence hi hxs hvs ?_
    unfold placing
    split
    · exact absurd rfl (hset _)
    · exact absurd rfl (hhash _)
    · exact absurd rfl (hmap _ _ _)
    · rfl

end Gathering

/-! ## Containers -/

/-- To merge a value into a container is to push its leaves from left to right, each converted to
    an item. -/
theorem merge?_pushes_leaves (hd : Stores d i pairs) (hs : s.readable pairs = true)
    (hacc : Ty.accepts d s = true) (hx : isOf d x = true) (hv : isOf s v = true) :
    ∃ vs y, (leaves pairs s v).mapM (converted? i) = Option.some vs ∧
      (∀ l ∈ leaves pairs s v, l.1 = i → converted? i l = Option.some l.2) ∧
      merge? d s x v = vs.foldlM (push? d) x ∧
      merge? d s x v = Option.some y ∧ Gathers d x vs y := by
  have hreads := reads_all hd s hs
  have hleaf := hreads.leaf hacc v hv
  obtain ⟨vs, hmap, hvs, hfold⟩ := pushLeaves_total hd hleaf
  obtain ⟨xs, rfl, hxs⟩ := (isOf_container hd.item).mp hx
  have hmerge : merge? d s (pack d xs) v = vs.foldlM (push? d) (pack d xs) :=
    (hreads.merge _ v hv).trans (hfold _)
  refine ⟨vs, pack d (vs.foldl (added d) xs), hmap, fun l hl => ?_, hmerge, ?_, ?_⟩
  · exact converted?_same (hleaf l hl).2.2
  · rw [hmerge, pushAll_pack hd.item hxs hvs]
  · exact gathers_pack hd.item hxs hvs

end

/-- A text, an optional character and alternatives between characters. -/
def lineTy : Ty := .tuple [.text, .option .char, .list .deque (.either .char .char), .unused]

def line : Value :=
  .tuple [.text "ab", .some (.char 'c'), .seq [.left (.char 'd'), .right (.char 'a')], .unused]

/-- Optional entries of texts with numbers, and a map with wider numbers. -/
def entriesTy : Ty := .vec (.option (.tuple [.text, .int .i32]))

def entries : Value := .seq [.some (.tuple [.text "k", .int 2]), .none]

def countsTy : Ty := .map .tree .text (.int .i64)

def counts : Value := .seq [.tuple [.text "k", .int 1]]

/-- A line goes into a text, and entries go into a map. -/
theorem merge?_pushes_leaves_line :
    (∃ vs y, (leaves false lineTy line).mapM (converted? Ty.char) = Option.some vs ∧
      (∀ l ∈ leaves false lineTy line, l.1 = Ty.char → converted? Ty.char l = Option.some l.2) ∧
      merge? .text lineTy (.text "x") line = vs.foldlM (push? .text) (.text "x") ∧
      merge? .text lineTy (.text "x") line = Option.some y ∧ Gathers .text (.text "x") vs y) ∧
    ∃ vs y, (leaves true entriesTy entries).mapM (converted? (.tuple [.text, .int .i64])) =
        Option.some vs ∧
      (∀ l ∈ leaves true entriesTy entries, l.1 = .tuple [.text, .int .i64] →
        converted? (.tuple [.text, .int .i64]) l = Option.some l.2) ∧
      merge? countsTy entriesTy counts entries = vs.foldlM (push? countsTy) counts ∧
      merge? countsTy entriesTy counts entries = Option.some y ∧ Gathers countsTy counts vs y :=
  ⟨merge?_pushes_leaves (stores_assigned rfl (.inl rfl)) (by decide) (by decide +kernel)
      (by decide) (by decide),
    merge?_pushes_leaves (stores_map .tree .text (.int .i64)) (by decide) (by decide +kernel)
      (by decide) (by decide)⟩

end Value

end Peg
