/-
  Peg.Proofs.MergeTotal

  Whether a value can be merged into a slot is up to the two types
  (`merge?_by_types`): where they go together, no value stops it and the slot
  stays of its type (`merge?_total`), and where they do not, there is a value
  that no slot takes (`merge?_refused`). Each strategy has its equation, and
  both directions go by induction over the strategies, one case for each.
-/
import Peg.Attribute.Declared
import Peg.Proofs.Conversions

namespace Peg

/-! ## The strategies one by one -/

namespace Ty

theorem all_attach {α : Type} (l : List α) (p : α → Bool) :
    (l.attach.all fun a => p a.1) = l.all p := by
  have h := congrArg (List.all · p) (List.attach_map_subtype_val l)
  rwa [List.all_map] at h

end Ty

section

variable [Conversions]

namespace Ty

theorem accepts_eq (target source : Ty) : accepts target source =
    match strategy target source with
    | .keep => true
    | .convert => target.convertible source
    | .unwrap l r => accepts target l && accepts target r
    | .slots ds ss => (ds.zip ss).all fun p => accepts p.1 p.2
    | .assign d s => accepts d s
    | .set d => accepts d source
    | .push i => accepts i source
    | .mergeSome s => accepts target s
    | .spread ss => ss.all (accepts target)
    | .pushEach i j => accepts i j
    | .mergeEach j => accepts target j
    | .refuse => false := by
  rw [accepts]
  split <;> rename_i h <;> simp only [h]
  · exact all_attach _ fun p : Ty × Ty => accepts p.1 p.2
  · exact all_attach _ (accepts target)

section

variable {d s l r i j : Ty}

/-- How a value goes into a container: the item alone decides. -/
theorem strategy_container (hi : d.item? = some i) (hs : s.kind ≠ .unused ∧ s.kind ≠ .either) :
    strategy d s = intoContainer i s := by
  obtain ⟨hunused, heither⟩ := hs
  cases d with
  | text => cases hi; cases s <;> first | rfl | contradiction
  | list c t => cases hi; cases s <;> first | rfl | contradiction
  | map c k t => cases hi; cases s <;> first | rfl | contradiction
  | _ => cases hi

/-- One container goes into another by the items of both. -/
theorem strategy_into (hi : d.item? = some i) (hj : s.item? = some j) :
    strategy d s = containerStrategy i j := by
  rw [strategy_container hi]
  · cases s <;> cases hj <;> rfl
  · cases s <;> cases hj <;> simp [kind]

theorem accepts_unwrap (h : strategy d s = .unwrap l r) :
    accepts d s = (accepts d l && accepts d r) := by
  rw [accepts_eq, h]

theorem accepts_push (h : strategy d s = .push i) : accepts d s = accepts i s := by
  rw [accepts_eq, h]

theorem accepts_pushEach (h : strategy d s = .pushEach i j) : accepts d s = accepts i j := by
  rw [accepts_eq, h]

theorem accepts_mergeEach (h : strategy d s = .mergeEach j) : accepts d s = accepts d j := by
  rw [accepts_eq, h]

end

/-- What a strategy tells of the two types. -/
def Fits (target source : Ty) : Strategy → Prop
  | .unwrap l r => source = .either l r
  | .slots ds ss => target = .tuple ds ∧ source = .tuple ss ∧ ds.length = ss.length
  | .assign d s => target = .option d ∧ source = .option s
  | .set d => target = .option d
  | .push i => target.item? = some i
  | .mergeSome s => source = .option s
  | .spread ss => source = .tuple ss
  | .pushEach i j => target.item? = some i ∧ source.item? = some j
  | .mergeEach j => source.item? = some j
  | .keep | .convert | .refuse => True

theorem containerStrategy_fits {target source i j : Ty} (hi : target.item? = some i)
    (hj : source.item? = some j) : Fits target source (containerStrategy i j) := by
  unfold containerStrategy
  split <;> simp [Fits, hi, hj]

theorem intoContainer_fits {target i : Ty} (source : Ty) (hi : target.item? = some i) :
    Fits target source (intoContainer i source) := by
  unfold intoContainer
  split
  · split <;> simp [Fits, hi]
  · split <;> simp [Fits, hi]
  · split
    · next hj => exact containerStrategy_fits hi hj
    · exact hi

theorem strategy_fits (target source : Ty) : Fits target source (strategy target source) := by
  unfold strategy
  split
  · trivial
  · trivial
  · trivial
  · trivial
  · rfl
  · split
    · next h => exact ⟨rfl, rfl, h⟩
    · trivial
  · trivial
  · exact ⟨rfl, rfl⟩
  · rfl
  · exact intoContainer_fits _ rfl
  · exact intoContainer_fits _ rfl
  · exact intoContainer_fits _ rfl
  · trivial

theorem fits_of {target source : Ty} {σ : Strategy} (h : strategy target source = σ) :
    Fits target source σ := h ▸ strategy_fits target source

end Ty

namespace Value

variable {d s e t i j l r : Ty} {ds ss : List Ty} {x y v w : Value} {xs vs : List Value}

/-- Push the item of type `i` that a value of type `s` becomes. -/
def pushAs? (d i s : Ty) (x v : Value) : Option Value :=
  (merge? i s (default i) v).bind (push? d x)

section Strategies

/-- The slots of a tuple take those of another one, each by its own merger. -/
def slotBySlot (ms : List (Value → Value → Option Value)) : Value → Value → Option Value
  | .tuple xs, .tuple vs => (mergeSlots ms xs vs).map .tuple
  | _, _ => Option.none

/-- A value takes the slots of a tuple, each by its own merger. -/
def slotAfterSlot (ms : List (Value → Value → Option Value)) (x : Value) : Value → Option Value
  | .tuple vs => mergeInOrder ms x vs
  | _ => Option.none

/-- What a strategy does to a slot of type `d` with a value of type `s`. -/
def carryOut (d s : Ty) (x v : Value) : Strategy → Option Value
  | .keep => Option.some x
  | .convert => convert? d s v
  | .unwrap l r =>
    match v with
    | .left v => merge? d l x v
    | .right v => merge? d r x v
    | _ => Option.none
  | .slots ds ss => slotBySlot ((ds.zip ss).map fun p => merge? p.1 p.2) x v
  | .assign d s =>
    match v with
    | .none => Option.some .none
    | .some v => (merge? d s (default d) v).map .some
    | _ => Option.none
  | .set d => (merge? d s (default d) v).map .some
  | .push i => pushAs? d i s x v
  | .mergeSome s =>
    match v with
    | .none => Option.some x
    | .some v => merge? d s x v
    | _ => Option.none
  | .spread ss => slotAfterSlot (ss.map (merge? d)) x v
  | .pushEach i j => (items? v).bind fun vs => vs.foldlM (pushAs? d i j) x
  | .mergeEach j => (items? v).bind fun vs => vs.foldlM (merge? d j) x
  | .refuse => Option.none

theorem merge?_eq (d s : Ty) (x v : Value) :
    merge? d s x v = carryOut d s x v (Ty.strategy d s) := by
  rw [merge?]
  split <;> rename_i h <;> rewrite [h]
  case h_4 ds ss =>
    show _ = slotBySlot ((ds.zip ss).map fun p => merge? p.1 p.2) x v
    rw [← List.attach_map_val (l := ds.zip ss) (f := fun p => merge? p.1 p.2)]
    rfl
  case h_9 ss =>
    show _ = slotAfterSlot (ss.map (merge? d)) x v
    rw [← List.attach_map_val (l := ss) (f := merge? d)]
    rfl
  all_goals rfl

theorem merge?_keep (h : Ty.strategy d s = .keep) : merge? d s x v = Option.some x := by
  rw [merge?_eq, h]
  rfl

theorem merge?_convert (h : Ty.strategy d s = .convert) : merge? d s x v = convert? d s v := by
  rw [merge?_eq, h]
  rfl

theorem merge?_left (h : Ty.strategy d s = .unwrap l r) :
    merge? d s x (.left v) = merge? d l x v := by
  rw [merge?_eq, h]
  rfl

theorem merge?_right (h : Ty.strategy d s = .unwrap l r) :
    merge? d s x (.right v) = merge? d r x v := by
  rw [merge?_eq, h]
  rfl

theorem merge?_slots (h : Ty.strategy d s = .slots ds ss) :
    merge? d s (.tuple xs) (.tuple vs) =
      (mergeSlots ((ds.zip ss).map fun p => merge? p.1 p.2) xs vs).map .tuple := by
  rw [merge?_eq, h]
  rfl

theorem merge?_assign_none (h : Ty.strategy d s = .assign e t) :
    merge? d s x .none = Option.some .none := by
  rw [merge?_eq, h]
  rfl

theorem merge?_assign_some (h : Ty.strategy d s = .assign e t) :
    merge? d s x (.some v) = (merge? e t (default e) v).map .some := by
  rw [merge?_eq, h]
  rfl

theorem merge?_set (h : Ty.strategy d s = .set e) :
    merge? d s x v = (merge? e s (default e) v).map .some := by
  rw [merge?_eq, h]
  rfl

theorem merge?_push (h : Ty.strategy d s = .push i) : merge? d s x v = pushAs? d i s x v := by
  rw [merge?_eq, h]
  rfl

theorem merge?_mergeSome_none (h : Ty.strategy d s = .mergeSome t) :
    merge? d s x .none = Option.some x := by
  rw [merge?_eq, h]
  rfl

theorem merge?_mergeSome_some (h : Ty.strategy d s = .mergeSome t) :
    merge? d s x (.some v) = merge? d t x v := by
  rw [merge?_eq, h]
  rfl

theorem merge?_spread (h : Ty.strategy d s = .spread ss) :
    merge? d s x (.tuple vs) = mergeInOrder (ss.map (merge? d)) x vs := by
  rw [merge?_eq, h]
  rfl

theorem merge?_pushEach (h : Ty.strategy d s = .pushEach i j) (hvs : Contents s j vs) :
    merge? d s x (pack s vs) = vs.foldlM (pushAs? d i j) x := by
  have hitems := items?_pack (Ty.fits_of h).2 hvs
  rw [merge?_eq, h, carryOut, hitems, Option.bind_some]

theorem merge?_mergeEach (h : Ty.strategy d s = .mergeEach j) (hvs : Contents s j vs) :
    merge? d s x (pack s vs) = vs.foldlM (merge? d j) x := by
  have hitems := items?_pack (Ty.fits_of h) hvs
  rw [merge?_eq, h, carryOut, hitems, Option.bind_some]

theorem merge?_refuse (h : Ty.strategy d s = .refuse) : merge? d s x v = Option.none := by
  rw [merge?_eq, h]
  rfl

end Strategies

/-! ## Types that go together -/

/-- Every value of type `s` can be merged into every slot of type `d`, which stays of its type. -/
def Total (d s : Ty) : Prop :=
  ∀ x v, isOf d x = true → isOf s v = true → ∃ y, merge? d s x v = Option.some y ∧ isOf d y = true

theorem Total.fresh (h : Total d s) (hv : isOf s v = true) :
    ∃ y, merge? d s (default d) v = Option.some y ∧ isOf d y = true :=
  h (default d) v (isOf_default d) hv

theorem mergeSlots_total (hlen : ds.length = ss.length)
    (h : ∀ d s, (d, s) ∈ ds.zip ss → Total d s)
    (hxs : List.Forall₂ (fun t v => isOf t v = true) ds xs)
    (hvs : List.Forall₂ (fun t v => isOf t v = true) ss vs) :
    ∃ ys, mergeSlots ((ds.zip ss).map fun p => merge? p.1 p.2) xs vs = Option.some ys ∧
      List.Forall₂ (fun t v => isOf t v = true) ds ys := by
  induction hxs generalizing ss vs with
  | nil =>
    cases hvs with
    | nil => exact ⟨[], rfl, .nil⟩
    | cons => cases hlen
  | cons hx hxs ih =>
    cases hvs with
    | nil => cases hlen
    | cons hv hvs =>
      obtain ⟨y, hmerge, hy⟩ := h _ _ List.mem_cons_self _ _ hx hv
      obtain ⟨ys, hrest, hys⟩ :=
        ih (Nat.succ.inj hlen) (fun d s hds => h d s (List.mem_cons_of_mem _ hds)) hvs
      refine ⟨y :: ys, ?_, .cons hy hys⟩
      simp [mergeSlots, hmerge, hrest]

theorem mergeInOrder_total (h : ∀ s ∈ ss, Total d s)
    (hvs : List.Forall₂ (fun t v => isOf t v = true) ss vs) (hx : isOf d x = true) :
    ∃ y, mergeInOrder (ss.map (merge? d)) x vs = Option.some y ∧ isOf d y = true := by
  induction hvs generalizing x with
  | nil => exact ⟨x, rfl, hx⟩
  | cons hv hvs ih =>
    obtain ⟨y, hmerge, hy⟩ := h _ List.mem_cons_self x _ hx hv
    obtain ⟨z, hrest, hz⟩ := ih (fun s hs => h s (List.mem_cons_of_mem _ hs)) hy
    refine ⟨z, ?_, hz⟩
    rw [List.map_cons, mergeInOrder, hmerge]
    exact hrest

theorem foldlM_total {f : Value → Value → Option Value}
    (h : ∀ v ∈ vs, ∀ x, isOf d x = true → ∃ y, f x v = Option.some y ∧ isOf d y = true)
    (hx : isOf d x = true) : ∃ y, vs.foldlM f x = Option.some y ∧ isOf d y = true := by
  induction vs generalizing x with
  | nil => exact ⟨x, rfl, hx⟩
  | cons v vs ih =>
    obtain ⟨y, hstep, hy⟩ := h v List.mem_cons_self x hx
    obtain ⟨z, hrest, hz⟩ := ih (fun u hu => h u (List.mem_cons_of_mem v hu)) hy
    refine ⟨z, ?_, hz⟩
    rw [List.foldlM_cons, hstep]
    exact hrest

/-- A value of a type that goes into the items can be pushed. -/
theorem pushAs?_total (hi : d.item? = Option.some i) (h : Total i s) (hx : isOf d x = true)
    (hv : isOf s v = true) : ∃ y, pushAs? d i s x v = Option.some y ∧ isOf d y = true := by
  obtain ⟨w, hmerge, hw⟩ := h.fresh hv
  obtain ⟨xs, rfl, hxs⟩ := (isOf_container hi).mp hx
  refine ⟨pack d (added d xs w), ?_, (isOf_container hi).mpr ⟨_, rfl, hxs.added hw⟩⟩
  rw [pushAs?, hmerge]
  exact push?_pack hi hxs hw

/-- Merging is total where the types go together. -/
theorem merge?_total (h : Ty.accepts d s = true) : Total d s := by
  induction d, s using Ty.accepts.induct with
  | case1 d s hstrat =>
    intro x v hx _
    exact ⟨x, merge?_keep hstrat, hx⟩
  | case2 d s hstrat =>
    intro x v _ hv
    rw [Ty.accepts_eq, hstrat] at h
    rw [merge?_convert hstrat]
    exact convert?_total h hv
  | case3 d s l r hstrat ihl ihr =>
    intro x v hx hv
    rw [Ty.accepts_eq, hstrat, Bool.and_eq_true] at h
    obtain rfl : s = .either l r := Ty.fits_of hstrat
    rcases isOf_either.mp hv with ⟨w, rfl, hw⟩ | ⟨w, rfl, hw⟩
    · rw [merge?_left hstrat]
      exact ihl h.1 x w hx hw
    · rw [merge?_right hstrat]
      exact ihr h.2 x w hx hw
  | case4 d s ds ss hstrat ih =>
    intro x v hx hv
    rw [Ty.accepts_eq, hstrat] at h
    obtain ⟨rfl, rfl, hlen⟩ := Ty.fits_of hstrat
    obtain ⟨xs, rfl, hxs⟩ := isOf_tuple.mp hx
    obtain ⟨vs, rfl, hvs⟩ := isOf_tuple.mp hv
    have hall : ∀ d s, (d, s) ∈ ds.zip ss → Total d s := fun d s hds =>
      ih d s hds (List.all_eq_true.mp h (d, s) hds)
    obtain ⟨ys, hmerge, hys⟩ := mergeSlots_total hlen hall hxs hvs
    refine ⟨.tuple ys, ?_, isOf_tuple.mpr ⟨ys, rfl, hys⟩⟩
    rw [merge?_slots hstrat, hmerge, Option.map_some]
  | case5 d s e t hstrat ih =>
    intro x v _ hv
    rw [Ty.accepts_eq, hstrat] at h
    obtain ⟨rfl, rfl⟩ := Ty.fits_of hstrat
    rcases isOf_option.mp hv with rfl | ⟨w, rfl, hw⟩
    · exact ⟨.none, merge?_assign_none hstrat, rfl⟩
    · obtain ⟨y, hmerge, hy⟩ := (ih h).fresh hw
      exact ⟨.some y, by rw [merge?_assign_some hstrat, hmerge, Option.map_some], hy⟩
  | case6 d s e hstrat ih =>
    intro x v _ hv
    rw [Ty.accepts_eq, hstrat] at h
    obtain rfl : d = .option e := Ty.fits_of hstrat
    obtain ⟨y, hmerge, hy⟩ := (ih h).fresh hv
    exact ⟨.some y, by rw [merge?_set hstrat, hmerge, Option.map_some], hy⟩
  | case7 d s i hstrat ih =>
    intro x v hx hv
    rw [Ty.accepts_eq, hstrat] at h
    rw [merge?_push hstrat]
    exact pushAs?_total (Ty.fits_of hstrat) (ih h) hx hv
  | case8 d s t hstrat ih =>
    intro x v hx hv
    rw [Ty.accepts_eq, hstrat] at h
    obtain rfl : s = .option t := Ty.fits_of hstrat
    rcases isOf_option.mp hv with rfl | ⟨w, rfl, hw⟩
    · exact ⟨x, merge?_mergeSome_none hstrat, hx⟩
    · rw [merge?_mergeSome_some hstrat]
      exact ih h x w hx hw
  | case9 d s ss hstrat ih =>
    intro x v hx hv
    rw [Ty.accepts_eq, hstrat] at h
    obtain rfl : s = .tuple ss := Ty.fits_of hstrat
    obtain ⟨vs, rfl, hvs⟩ := isOf_tuple.mp hv
    have hall : ∀ s ∈ ss, Total d s := fun s hs => ih s hs (List.all_eq_true.mp h s hs)
    rw [merge?_spread hstrat]
    exact mergeInOrder_total hall hvs hx
  | case10 d s i j hstrat ih =>
    intro x v hx hv
    rw [Ty.accepts_eq, hstrat] at h
    obtain ⟨hi, hj⟩ := Ty.fits_of hstrat
    obtain ⟨vs, rfl, hvs⟩ := (isOf_container hj).mp hv
    rw [merge?_pushEach hstrat hvs]
    exact foldlM_total (fun v hv x hx => pushAs?_total hi (ih h) hx (hvs.typed v hv)) hx
  | case11 d s j hstrat ih =>
    intro x v hx hv
    rw [Ty.accepts_eq, hstrat] at h
    obtain ⟨vs, rfl, hvs⟩ := (isOf_container (Ty.fits_of hstrat)).mp hv
    rw [merge?_mergeEach hstrat hvs]
    exact foldlM_total (fun v hv x hx => ih h x v hx (hvs.typed v hv)) hx
  | case12 d s hstrat =>
    rw [Ty.accepts_eq, hstrat] at h
    cases h

/-! ## Types that do not go together -/

/-- Some value of type `s` goes into no slot of type `d`. -/
def Refused (d s : Ty) : Prop :=
  ∃ v, isOf s v = true ∧ ∀ x, isOf d x = true → merge? d s x v = Option.none

theorem pushAs?_refused (h : merge? i s (default i) v = Option.none) :
    pushAs? d i s x v = Option.none := by
  rw [pushAs?, h, Option.bind_none]

theorem defaults_typed (ts : List Ty) :
    List.Forall₂ (fun t v => isOf t v = true) ts (defaults ts) := areOf_iff.mp (areOf_defaults ts)

/-- One slot that cannot take its value is enough. -/
theorem mergeSlots_refused (hlen : ds.length = ss.length)
    (h : ∃ p ∈ ds.zip ss, Refused p.1 p.2) :
    ∃ vs, List.Forall₂ (fun t v => isOf t v = true) ss vs ∧
      ∀ xs, List.Forall₂ (fun t v => isOf t v = true) ds xs →
        mergeSlots ((ds.zip ss).map fun p => merge? p.1 p.2) xs vs = Option.none := by
  induction ds generalizing ss with
  | nil =>
    obtain ⟨p, hp, -⟩ := h
    cases hp
  | cons d ds ih =>
    cases ss with
    | nil => cases hlen
    | cons s ss =>
      obtain ⟨p, hp, href⟩ := h
      rcases List.mem_cons.mp hp with rfl | hp
      · obtain ⟨v, hv, hnone⟩ := href
        refine ⟨v :: defaults ss, .cons hv (defaults_typed ss), fun xs hxs => ?_⟩
        cases hxs with
        | cons hx _ => simp [mergeSlots, hnone _ hx]
      · obtain ⟨vs, hvs, hnone⟩ := ih (Nat.succ.inj hlen) ⟨p, hp, href⟩
        refine ⟨default s :: vs, .cons (isOf_default s) hvs, fun xs hxs => ?_⟩
        cases hxs with
        | cons hx hxs => simp [mergeSlots, hnone _ hxs]

theorem mergeInOrder_refused (hall : ∀ s ∈ ss, Ty.accepts d s = false → Refused d s)
    (h : ss.all (Ty.accepts d) = false) :
    ∃ vs, List.Forall₂ (fun t v => isOf t v = true) ss vs ∧
      ∀ x, isOf d x = true → mergeInOrder (ss.map (merge? d)) x vs = Option.none := by
  induction ss with
  | nil => cases h
  | cons s ss ih =>
    cases hs : Ty.accepts d s with
    | false =>
      obtain ⟨v, hv, hnone⟩ := hall s List.mem_cons_self hs
      refine ⟨v :: defaults ss, .cons hv (defaults_typed ss), fun x hx => ?_⟩
      rw [List.map_cons, mergeInOrder, hnone x hx, Option.bind_none]
    | true =>
      rw [List.all_cons, hs, Bool.true_and] at h
      obtain ⟨vs, hvs, hnone⟩ := ih (fun t ht => hall t (List.mem_cons_of_mem s ht)) h
      refine ⟨default s :: vs, .cons (isOf_default s) hvs, fun x hx => ?_⟩
      obtain ⟨y, hmerge, hy⟩ := merge?_total hs x (default s) hx (isOf_default s)
      rw [List.map_cons, mergeInOrder, hmerge]
      exact hnone y hy

/-- A container with a single item. -/
theorem Contents.single (hv : isOf i v = true) : Contents d i [v] where
  typed _ ha := List.mem_singleton.mp ha ▸ hv
  sorted _ _ _ := List.pairwise_singleton _ _

/-- Where the types do not go together, some value is refused by every slot. -/
theorem merge?_refused (h : Ty.accepts d s = false) : Refused d s := by
  induction d, s using Ty.accepts.induct with
  | case1 d s hstrat =>
    rw [Ty.accepts_eq, hstrat] at h
    cases h
  | case2 d s hstrat =>
    rw [Ty.accepts_eq, hstrat] at h
    refine ⟨default s, isOf_default s, fun x _ => ?_⟩
    rw [merge?_convert hstrat, convert?_of_not_convertible h]
  | case3 d s l r hstrat ihl ihr =>
    rw [Ty.accepts_eq, hstrat, Bool.and_eq_false_iff] at h
    obtain rfl : s = .either l r := Ty.fits_of hstrat
    rcases h with h | h
    · obtain ⟨v, hv, hnone⟩ := ihl h
      exact ⟨.left v, hv, fun x hx => (merge?_left hstrat).trans (hnone x hx)⟩
    · obtain ⟨v, hv, hnone⟩ := ihr h
      exact ⟨.right v, hv, fun x hx => (merge?_right hstrat).trans (hnone x hx)⟩
  | case4 d s ds ss hstrat ih =>
    rw [Ty.accepts_eq, hstrat] at h
    obtain ⟨rfl, rfl, hlen⟩ := Ty.fits_of hstrat
    obtain ⟨p, hp, hacc⟩ := List.all_eq_false.mp h
    have href := ih p.1 p.2 hp (Bool.eq_false_iff.mpr hacc)
    obtain ⟨vs, hvs, hnone⟩ := mergeSlots_refused hlen ⟨p, hp, href⟩
    refine ⟨.tuple vs, isOf_tuple.mpr ⟨vs, rfl, hvs⟩, fun x hx => ?_⟩
    obtain ⟨xs, rfl, hxs⟩ := isOf_tuple.mp hx
    rw [merge?_slots hstrat, hnone xs hxs, Option.map_none]
  | case5 d s e t hstrat ih =>
    rw [Ty.accepts_eq, hstrat] at h
    obtain ⟨rfl, rfl⟩ := Ty.fits_of hstrat
    obtain ⟨v, hv, hnone⟩ := ih h
    refine ⟨.some v, hv, fun x _ => ?_⟩
    rw [merge?_assign_some hstrat, hnone _ (isOf_default e), Option.map_none]
  | case6 d s e hstrat ih =>
    rw [Ty.accepts_eq, hstrat] at h
    obtain ⟨v, hv, hnone⟩ := ih h
    refine ⟨v, hv, fun x _ => ?_⟩
    rw [merge?_set hstrat, hnone _ (isOf_default e), Option.map_none]
  | case7 d s i hstrat ih =>
    rw [Ty.accepts_eq, hstrat] at h
    obtain ⟨v, hv, hnone⟩ := ih h
    refine ⟨v, hv, fun x _ => ?_⟩
    rw [merge?_push hstrat, pushAs?_refused (hnone _ (isOf_default i))]
  | case8 d s t hstrat ih =>
    rw [Ty.accepts_eq, hstrat] at h
    obtain rfl : s = .option t := Ty.fits_of hstrat
    obtain ⟨v, hv, hnone⟩ := ih h
    exact ⟨.some v, hv, fun x hx => (merge?_mergeSome_some hstrat).trans (hnone x hx)⟩
  | case9 d s ss hstrat ih =>
    rw [Ty.accepts_eq, hstrat] at h
    obtain rfl : s = .tuple ss := Ty.fits_of hstrat
    obtain ⟨vs, hvs, hnone⟩ := mergeInOrder_refused ih h
    refine ⟨.tuple vs, isOf_tuple.mpr ⟨vs, rfl, hvs⟩, fun x hx => ?_⟩
    rw [merge?_spread hstrat, hnone x hx]
  | case10 d s i j hstrat ih =>
    rw [Ty.accepts_eq, hstrat] at h
    obtain ⟨v, hv, hnone⟩ := ih h
    have hj : s.item? = Option.some j := (Ty.fits_of hstrat).2
    refine ⟨pack s [v], (isOf_container hj).mpr ⟨_, rfl, .single hv⟩, fun x _ => ?_⟩
    have hpush : pushAs? d i j x v = Option.none := pushAs?_refused (hnone _ (isOf_default i))
    rw [merge?_pushEach hstrat (.single hv), List.foldlM_cons, hpush]
    rfl
  | case11 d s j hstrat ih =>
    rw [Ty.accepts_eq, hstrat] at h
    obtain ⟨v, hv, hnone⟩ := ih h
    have hj : s.item? = Option.some j := Ty.fits_of hstrat
    refine ⟨pack s [v], (isOf_container hj).mpr ⟨_, rfl, .single hv⟩, fun x hx => ?_⟩
    rw [merge?_mergeEach hstrat (.single hv), List.foldlM_cons, hnone x hx]
    rfl
  | case12 d s hstrat =>
    exact ⟨default s, isOf_default s, fun x _ => merge?_refuse hstrat⟩

/-! ## Compatibility -/

/-- The two types alone tell whether there is a merge. Where they go together, every value of the
    one is merged into every slot of the other, and the slot stays of its type; where they do not,
    there is a value of the one that no slot of the other takes. -/
theorem merge?_by_types (d s : Ty) :
    (Ty.accepts d s = true → ∀ x v, isOf d x = true → isOf s v = true →
      ∃ y, merge? d s x v = Option.some y ∧ isOf d y = true) ∧
    (Ty.accepts d s = false → ∃ v, isOf s v = true ∧
      ∀ x, isOf d x = true → merge? d s x v = Option.none) :=
  ⟨merge?_total, merge?_refused⟩

end Value

end

namespace Value

/-- A number, or a row of optional numbers. -/
def numbersTy : Ty := .either (.int .i32) (.vec (.option (.int .u8)))

/-- Numbers of both sorts go into a list of wide numbers, which has a value whichever side is
    active and whatever is empty; a list of unsigned numbers takes the rows, but as it does not
    take the other side, the types do not go together. -/
theorem merge?_by_types_numbers :
    (∃ y, merge? (.vec (.int .i64)) numbersTy (.seq [.int 1]) (.left (.int (-2))) = Option.some y ∧
      isOf (.vec (.int .i64)) y = true) ∧
    (∃ y, merge? (.vec (.int .i64)) numbersTy (.seq [.int 1]) (.right (.seq [.none])) =
      Option.some y ∧ isOf (.vec (.int .i64)) y = true) ∧
    ∃ v, isOf numbersTy v = true ∧
      ∀ x, isOf (.vec (.int .u8)) x = true → merge? (.vec (.int .u8)) numbersTy x v = Option.none :=
  have hwide : Ty.accepts (.vec (.int .i64)) numbersTy = true := by decide +kernel
  have hunsigned : Ty.accepts (.vec (.int .u8)) numbersTy = false := by decide +kernel
  ⟨(merge?_by_types _ _).1 hwide _ _ (by decide) (by decide),
    (merge?_by_types _ _).1 hwide _ _ (by decide) (by decide),
    (merge?_by_types _ _).2 hunsigned⟩

end Value

end Peg
