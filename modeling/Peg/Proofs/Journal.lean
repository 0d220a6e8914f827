/-
  Peg.Proofs.Journal

  What the journal of a parse tells: which calls of rules are open, and for which
  the hook for failures has run. Between two states a parse is clean when no
  commit point has missed and every call that began is over; it is broken when
  one has missed, and from then on no hook for matches has run and the calls that
  were open have been reported as they were left, the innermost first.
-/
import Peg.Parse.Node

namespace Peg

/-! ## Incidents -/

namespace Incident

/-- A commit point misses. -/
def isMiss : Incident → Bool
  | .missed _ => true
  | _ => false

/-- An action or a hook for matches runs. -/
def isReward : Incident → Bool
  | .acted _ | .succeeded _ _ => true
  | _ => false

/-- The rule whose hook for failures runs. -/
def reported? : Incident → Option String
  | .reported rule _ => some rule
  | _ => none

/-- What may happen in a clean parse: calls, and where failures are tracked actions and hooks for
    matches. -/
def isClean (tracking : Bool) : Incident → Bool
  | .entered _ | .left _ => true
  | .acted _ | .succeeded _ _ => tracking
  | .missed _ | .reported _ _ => false

variable {tracking : Bool} {i : Incident}

theorem isClean_true (h : i.isClean tracking = true) : i.isClean true = true := by
  cases i <;> first | rfl | exact h

theorem isMiss_of_isClean (h : i.isClean tracking = true) : i.isMiss = false := by
  cases i <;> first | rfl | cases h

theorem isReward_of_isClean (h : i.isClean false = true) : i.isReward = false := by
  cases i <;> first | rfl | cases h

theorem reported?_of_isClean (h : i.isClean tracking = true) : i.reported? = none := by
  cases i <;> first | rfl | cases h

end Incident

/-! ## Journals, newest incident first -/

/-- The rules whose calls are open, the innermost first. -/
def openCalls : List Incident → List String
  | [] => []
  | .entered rule :: older => rule :: openCalls older
  | .left _ :: older => (openCalls older).tail
  | .missed _ :: older | .acted _ :: older | .succeeded _ _ :: older | .reported _ _ :: older =>
    openCalls older

/-- The rules whose hooks for failures ran, in the order of the journal. -/
def reports (journal : List Incident) : List String := journal.filterMap Incident.reported?

@[simp] theorem reports_cons (i : Incident) (older : List Incident) :
    reports (i :: older) = i.reported?.toList ++ reports older := by
  rw [reports, List.filterMap_cons]
  cases i.reported? <;> rfl

@[simp] theorem reports_append (new older : List Incident) :
    reports (new ++ older) = reports new ++ reports older := List.filterMap_append ..

theorem reports_reverse (journal : List Incident) :
    reports journal.reverse = (reports journal).reverse := List.filterMap_reverse ..

theorem reports_of_isClean {journal : List Incident} {tracking : Bool}
    (h : ∀ i ∈ journal, i.isClean tracking = true) : reports journal = [] := by
  rw [reports, List.filterMap_eq_nil_iff]
  exact fun i hi => Incident.reported?_of_isClean (h i hi)

/-! ## Clean parses -/

/-- From `st` to `st'` only clean incidents happen, and every call that began is over. -/
structure State.Clean (tracking : Bool) (st st' : State) : Prop where
  failure : st'.failure = st.failure
  calls : openCalls st'.journal = openCalls st.journal
  journal : ∃ new, st'.journal = new ++ st.journal ∧ ∀ i ∈ new, i.isClean tracking = true

namespace State.Clean

variable {b : Bool} {st st1 st2 : State}

/-- Nothing happens that the journal or the failure on record tells. -/
theorem of_eq (hj : st1.journal = st.journal) (hf : st1.failure = st.failure) : st.Clean b st1 :=
  ⟨hf, by rw [hj], [], hj, nofun⟩

theorem refl (st : State) : st.Clean b st := of_eq rfl rfl

theorem trans (h : st.Clean b st1) (h' : st1.Clean b st2) : st.Clean b st2 := by
  obtain ⟨hf, hc, new, hj, hnew⟩ := h
  obtain ⟨hf', hc', new', hj', hnew'⟩ := h'
  refine ⟨hf'.trans hf, hc'.trans hc, new' ++ new, ?_, fun i hi => ?_⟩
  · rw [hj', hj, List.append_assoc]
  · obtain hi | hi := List.mem_append.mp hi
    · exact hnew' i hi
    · exact hnew i hi

theorem mono (h : st.Clean false st1) : st.Clean b st1 := by
  obtain ⟨hf, hc, new, hj, hnew⟩ := h
  refine ⟨hf, hc, new, hj, fun i hi => ?_⟩
  have hi := hnew i hi
  cases b with
  | false => exact hi
  | true => exact Incident.isClean_true hi

/-- An action or a hook for matches runs where failures are tracked. -/
theorem reward (h : st.Clean true st1) {i : Incident} (hi : i.isReward = true)
    (hj : st2.journal = i :: st1.journal) (hf : st2.failure = st1.failure) : st.Clean true st2 := by
  refine h.trans ⟨hf, ?_, [i], hj, fun i' hi' => ?_⟩
  · rw [hj]
    cases i <;> first | rfl | cases hi
  · obtain rfl := List.mem_singleton.mp hi'
    cases i' <;> first | rfl | cases hi

/-- A call is over. -/
theorem close {rule : String} (h : (st.mark (.entered rule)).Clean b st1)
    (hj : st2.journal = .left rule :: st1.journal) (hf : st2.failure = st1.failure) :
    st.Clean b st2 := by
  obtain ⟨hf', hc, new, hj', hnew⟩ := h
  refine ⟨hf.trans hf', ?_, .left rule :: new ++ [.entered rule], ?_, fun i hi => ?_⟩
  · -- the call was the innermost one that is open
    rw [hj, openCalls, hc]
    rfl
  · rw [hj, hj', State.mark_journal]
    simp
  · simp only [List.cons_append, List.mem_cons, List.mem_append, List.not_mem_nil, or_false] at hi
    obtain rfl | hi | rfl := hi
    · rfl
    · exact hnew i hi
    · rfl

end State.Clean

/-! ## Broken parses -/

/-- From `st` to `st'` a commit point misses for the first time, and a failure is on record. After
    that no hook for matches runs, and the calls that were open then and not at `st` are reported,
    the innermost first. -/
structure State.Broken (st st' : State) : Prop where
  failure : st'.failure.isSome = true
  journal : ∃ after f before, st'.journal = after ++ .missed f :: (before ++ st.journal) ∧
    (∀ i ∈ before, i.isMiss = false) ∧ (∀ i ∈ after, i.isReward = false) ∧
    openCalls (before ++ st.journal) = (reports after).reverse ++ openCalls st.journal

namespace State.Broken

variable {b : Bool} {st st1 st2 : State}

/-- A parse that was clean before is broken from the same point on. -/
theorem of_clean (h : st.Clean b st1) (h' : st1.Broken st2) : st.Broken st2 := by
  obtain ⟨-, hc, new, hj, hnew⟩ := h
  obtain ⟨hf, after, f, before, hj', hbefore, hafter, hcalls⟩ := h'
  refine ⟨hf, after, f, before ++ new, ?_, fun i hi => ?_, hafter, ?_⟩
  · rw [hj', hj, List.append_assoc]
  · obtain hi | hi := List.mem_append.mp hi
    · exact hbefore i hi
    · exact Incident.isMiss_of_isClean (hnew i hi)
  · rw [List.append_assoc, ← hj, hcalls, hc]

/-- What happens untracked does not matter. -/
theorem trans (h : st.Broken st1) (h' : st1.Clean false st2) : st.Broken st2 := by
  obtain ⟨hf, after, f, before, hj, hbefore, hafter, hcalls⟩ := h
  obtain ⟨hf', -, new, hj', hnew⟩ := h'
  refine ⟨hf' ▸ hf, new ++ after, f, before, ?_, hbefore, fun i hi => ?_, ?_⟩
  · rw [hj', hj, List.append_assoc]
  · obtain hi | hi := List.mem_append.mp hi
    · exact Incident.isReward_of_isClean (hnew i hi)
    · exact hafter i hi
  · rw [reports_append, reports_of_isClean hnew]
    exact hcalls

/-- Nothing happens that the journal or the failure on record tells. -/
theorem congr (h : st.Broken st1) (hj : st2.journal = st1.journal)
    (hf : st2.failure = st1.failure) : st.Broken st2 :=
  ⟨hf ▸ h.failure, hj ▸ h.journal⟩

/-- The first commit point misses. -/
theorem first (h : st.Clean b st1) (f : Failure) : st.Broken (st1.record f) := by
  obtain ⟨-, hc, new, hj, hnew⟩ := h
  -- so far nothing has come after the miss, and nothing is reported
  refine ⟨Failure.record_isSome .., [], f, new, ?_, fun i hi => ?_, nofun, ?_⟩
  · rw [State.record_journal, hj]
    rfl
  · exact Incident.isMiss_of_isClean (hnew i hi)
  · rw [← hj]
    exact hc

/-- Another commit point misses. -/
theorem again (h : st.Broken st1) (f : Failure) : st.Broken (st1.record f) := by
  obtain ⟨-, after, f', before, hj, hbefore, hafter, hcalls⟩ := h
  refine ⟨Failure.record_isSome .., .missed f :: after, f', before, ?_, hbefore, ?_, ?_⟩
  · rw [State.record_journal, hj]
    rfl
  · exact List.forall_mem_cons.mpr ⟨rfl, hafter⟩
  · rw [reports_cons]
    exact hcalls

/-- A call is reported and over. -/
theorem close {rule : String} {span : Span} (h : (st.mark (.entered rule)).Broken st1)
    (hj : st2.journal = .left rule :: .reported rule span :: st1.journal)
    (hf : st2.failure = st1.failure) : st.Broken st2 := by
  obtain ⟨hf', after, f, before, hj', hbefore, hafter, hcalls⟩ := h
  refine ⟨hf ▸ hf', .left rule :: .reported rule span :: after, f, before ++ [.entered rule],
    ?_, fun i hi => ?_, ?_, ?_⟩
  · rw [hj, hj', State.mark_journal]
    simp
  · obtain hi | hi := List.mem_append.mp hi
    · exact hbefore i hi
    · obtain rfl := List.mem_singleton.mp hi
      rfl
  · exact List.forall_mem_cons.mpr ⟨rfl, List.forall_mem_cons.mpr ⟨rfl, hafter⟩⟩
  · -- its report comes after those of the calls inside it
    rw [List.append_assoc]
    refine Eq.trans hcalls ?_
    simp [openCalls, Incident.reported?]

end State.Broken

end Peg
