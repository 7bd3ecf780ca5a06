import OjsSqs.Calls.Pool
import OjsSqs.Atomic.Steps
import OjsSqs.Racing.Spawn

/-! # The counters of a workflow

`AdvanceWorkflow` reads the workflow, computes the counters and writes them
back. As long as no call reads them between another call's read and write,
each of the workflow's jobs is counted once and the last one writes the final
state; otherwise counts are lost and the workflow may stay running. -/
namespace OjsSqs
open Calls

/-- Where a call of `AdvanceWorkflow` stands: before its read, between its read
of the workflow and its write of the counters, before its write of the final
state, and after. `gone` is a call that found no job or no running group. -/
inductive Advance where
  | idle
  | holding (wf : WorkflowRecord)
  | finishing (failed : Int)
  | done (made : Option String)
  | gone

/-- The call has written the counters. -/
def Advance.counted : Advance → Bool
  | .finishing _ | .done _ => true
  | _ => false

def Advance.isDone : Advance → Bool
  | .done _ => true
  | _ => false

/-- The state of a group whose jobs are all done. -/
def finalState (failed : Int) : WorkflowState :=
  if 0 < failed then .failed else .completed

/-- Follows one call of `AdvanceWorkflow` for the job `jobID` of a group. -/
def advancing (wfID jobID : String) (failed : Bool) : Monitor Advance Call Answer Unit where
  allow
    | .idle, c => c = .dynamo (.getJobItem jobID) ∨ c = .dynamo (.getWorkflowItem wfID)
    | .holding wf, c => c = .dynamo (.getJobItem jobID) ∨
        (∃ i res, c = .dynamo (.putWorkflowResultItem wfID i res)) ∨
        c = .dynamo (.updateWorkflowItem wfID (counterUpdates wf failed))
    | .finishing n, c => c.isAside ∨
        ∃ now, c = .dynamo (.updateWorkflowItem wfID [.state (finalState n), .completedAt now])
    | .done made, c => c.spawns made
    | .gone, _ => True
  next
    | .idle, .dynamo (.getJobItem _), .ok (some r) => if r.workflowID = wfID then .idle else .gone
    | .idle, .dynamo (.getWorkflowItem _), .ok (some wf) =>
      if wf.state = .running ∧ wf.type ≠ "chain" then .holding wf else .gone
    | .idle, _, _ => .gone
    | .holding wf, .dynamo (.getJobItem _), .ok (some _) => .holding wf
    | .holding _, .dynamo (.getJobItem _), _ => .gone
    | .holding wf, .dynamo (.updateWorkflowItem _ _), _ =>
      if allFinished wf failed then .finishing (failedAfter wf failed) else .done none
    | .finishing _, .dynamo (.updateWorkflowItem _ _), _ => .done none
    | .done made, c, r => .done (freshAfter made c r)
    | s, _, _ => s
  accept
    | _, .done _ | _, .gone => True
    | _, _ => False

/-! ## AdvanceWorkflow conforms -/

section
variable (cfg : Config) {wfID jobID : String} {failed : Bool}

theorem advancing_gone {β : Type} {p : M β} {Q : β → Advance → Prop} (hQ : ∀ a, Q a .gone) :
    wp (advancing wfID jobID failed).effect p Q .gone := by
  induction p with
  | pure a => exact hQ a
  | call c k ih => exact ⟨trivial, fun r => ih r⟩

theorem advancing_getJob_idle {Q : Except Error JobRecord → Advance → Prop}
    (hok : ∀ r, r.workflowID = wfID → Q (.ok r) .idle) (hgone : ∀ a, Q a .gone) :
    wp (advancing wfID jobID failed).effect (getJob jobID) Q .idle := by
  rw [getJob, wp_bind]
  refine ⟨.inl rfl, fun a => ?_⟩
  rcases a with e | _ | r
  · exact hgone _
  · exact hgone _
  · by_cases hr : r.workflowID = wfID
    · rw [show (advancing wfID jobID failed).next .idle (.dynamo (.getJobItem jobID))
        (.ok (some r)) = .idle from if_pos hr]
      exact hok r hr
    · rw [show (advancing wfID jobID failed).next .idle (.dynamo (.getJobItem jobID))
        (.ok (some r)) = .gone from if_neg hr]
      exact hgone _

theorem advancing_getWorkflowRecord {Q : Except Error WorkflowRecord → Advance → Prop}
    (hok : ∀ wf, wf.state = .running → wf.type ≠ "chain" → Q (.ok wf) (.holding wf))
    (hgone : ∀ a, Q a .gone) :
    wp (advancing wfID jobID failed).effect (getWorkflowRecord wfID) Q .idle := by
  rw [getWorkflowRecord, wp_bind]
  refine ⟨.inr rfl, fun a => ?_⟩
  rcases a with e | _ | wf
  · exact hgone _
  · exact hgone _
  · by_cases hwf : wf.state = .running ∧ wf.type ≠ "chain"
    · rw [show (advancing wfID jobID failed).next .idle (.dynamo (.getWorkflowItem wfID))
        (.ok (some wf)) = .holding wf from if_pos hwf]
      exact hok wf hwf.1 hwf.2
    · rw [show (advancing wfID jobID failed).next .idle (.dynamo (.getWorkflowItem wfID))
        (.ok (some wf)) = .gone from if_neg hwf]
      exact hgone _

theorem advancing_getJob_holding {wf : WorkflowRecord}
    {Q : Except Error JobRecord → Advance → Prop}
    (hok : ∀ r, Q (.ok r) (.holding wf)) (hgone : ∀ a, Q a .gone) :
    wp (advancing wfID jobID failed).effect (getJob jobID) Q (.holding wf) := by
  rw [getJob, wp_bind]
  refine ⟨.inl rfl, fun a => ?_⟩
  rcases a with e | _ | r
  · exact hgone _
  · exact hgone _
  · exact hok r

/-- The result of a step is stored without touching job or workflow. -/
theorem advancing_storeResult {wf : WorkflowRecord} {stepIdx : Int} {result : Option String}
    {Q : Unit → Advance → Prop} (hQ : Q () (.holding wf)) :
    wp (advancing wfID jobID failed).effect (storeResult wfID stepIdx result) Q (.holding wf) := by
  cases result with
  | none => exact hQ
  | some res =>
    show wp _ (if res = "" then _ else _) Q _
    rw [wp_ite]
    split
    · exact hQ
    · rw [setWorkflowResult, request, wp_bind, wp_bind]
      refine ⟨.inr (.inl ⟨_, _, rfl⟩), fun a => ?_⟩
      rcases a with e | u <;> exact hQ

theorem advancing_finishGroup {wf : WorkflowRecord} {Q : Except Error Unit → Advance → Prop}
    (hQ : ∀ a o, Q a (.done o)) :
    wp (advancing wfID jobID failed).effect (finishGroup cfg wfID wf failed) Q
      (.finishing (failedAfter wf failed)) := by
  rw [finishGroup, wp_bind]
  refine Monitor.wp_only (only_nowFormatted cfg) (fun c hc => ⟨.inl hc, fun r => ?_⟩) fun now => ?_
  · cases c with
    | dynamo d => cases hc
    | sqs c => rfl
    | proc c => rfl
  · rw [wp_bind, updateWorkflow, if_neg (by simp), request, wp_bind]
    refine ⟨.inr ⟨now, rfl⟩, fun a => ?_⟩
    have hdone : ∀ o, wp (advancing wfID jobID failed).effect (if wf.type = "batch" then
        fireBatchCallbacks cfg wf (decide (0 < failedAfter wf failed)) >>= fun _ =>
          return Except.ok ()
        else return Except.ok ()) Q (.done o) := by
      intro o
      rw [wp_ite]
      split
      · rw [wp_bind]
        have hfire : wp (spawning Unit).effect
            (fireBatchCallbacks cfg wf (decide (0 < failedAfter wf failed))) (fun _ _ => True) o :=
          spawning_fireBatchCallbacks cfg fun _ => trivial
        exact Monitor.wp_embed (m := advancing wfID jobID failed) .done
          (fun _ _ hc => ⟨hc, fun _ => rfl⟩) hfire fun _ o _ => hQ _ o
      · exact hQ _ o
    rcases a with e | u <;> exact hdone none

theorem advancing_advanceGroup {wf : WorkflowRecord} {Q : Except Error Unit → Advance → Prop}
    (hQ : ∀ a o, Q a (.done o)) :
    wp (advancing wfID jobID failed).effect (advanceGroup cfg wfID wf failed) Q (.holding wf) := by
  rw [advanceGroup, wp_bind, updateWorkflow, if_neg (by simp [counterUpdates]), request, wp_bind]
  refine ⟨.inr (.inr rfl), fun a => ?_⟩
  have hrest : wp (advancing wfID jobID failed).effect
      (if allFinished wf failed then finishGroup cfg wfID wf failed else return .ok ()) Q
      (if allFinished wf failed then .finishing (failedAfter wf failed) else .done none) := by
    split
    · exact advancing_finishGroup cfg hQ
    · exact hQ _ none
  rcases a with e | u <;> exact hrest

theorem advancing_advanceWorkflowOf (hne : wfID ≠ "") (st : JobState) (result : Option String) :
    (advancing wfID jobID (decide (st = .discarded ∨ st = .cancelled))).Conforms
      (advanceWorkflowOf cfg jobID st result) .idle := by
  rw [Monitor.Conforms, advanceWorkflowOf, wp_bind]
  refine advancing_getJob_idle (fun r hr => ?_) fun a => ?_
  · simp only [hr, if_neg hne]
    rw [wp_bind, advanceWorkflow, wp_bind]
    refine advancing_getWorkflowRecord (fun wf hrun htype => ?_) fun a => advancing_gone fun _ => trivial
    simp only [hrun, ne_eq, not_true_eq_false, if_false]
    rw [wp_bind]
    refine advancing_getJob_holding (fun r' => ?_) fun a => advancing_gone fun _ => trivial
    simp only [if_neg htype]
    rw [wp_bind]
    exact advancing_storeResult (advancing_advanceGroup cfg fun a o => trivial)
  · exact advancing_gone fun _ => trivial

end

/-! ## The counters and the calls that are counted -/

section
variable {ι : Type}

/-- The call has been counted, as completed or as failed. -/
def asCompleted (failed : ι → Bool) (i : ι) (s : Advance) : Bool := s.counted && !failed i
def asFailed (failed : ι → Bool) (i : ι) (s : Advance) : Bool := s.counted && failed i

variable [Fintype ι] [DecidableEq ι] {failed : ι → Bool} {t : ι → Advance} {wf : WorkflowRecord}
  {i : ι}

/-- The record's counters are the numbers of calls that have written them, and
its state is final when all are done. -/
structure Tallied (failed : ι → Bool) (t : ι → Advance) (wf : WorkflowRecord) : Prop where
  type : wf.type ≠ "chain"
  total : wf.total = Fintype.card ι
  completed : wf.completed = tally (asCompleted failed) t
  failures : wf.failed = tally (asFailed failed) t
  held : ∀ i wf', t i = .holding wf' → wf' = wf
  alone : ∀ i j wf₁ wf₂, t i = .holding wf₁ → t j = .holding wf₂ → i = j
  last : ∀ i n, t i = .finishing n →
    n = wf.failed ∧ ∀ j, (t j).counted = true ∧ (j ≠ i → (t j).isDone = true)
  running : (∃ i, (t i).isDone = false) → wf.state = .running
  final : (∀ i, (t i).isDone = true) → wf.state = finalState wf.failed

/-- What a job of the pool that has been counted is. -/
theorem Advance.counted_cases {s : Advance} (h : s.counted = true) :
    (∃ n, s = .finishing n) ∨ ∃ o, s = .done o := by
  cases s with
  | finishing n => exact .inl ⟨n, rfl⟩
  | done o => exact .inr ⟨o, rfl⟩
  | _ => cases h

/-- A call that is done stays done. -/
theorem Tallied.stay (h : Tallied failed t wf) {o o' : Option String} (hi : t i = .done o) :
    Tallied failed (Function.update t i (.done o')) wf := by
  have hdone : ∀ j, (Function.update t i (Advance.done o') j).isDone = (t j).isDone := fun j => by
    by_cases hj : j = i
    · rw [hj, Function.update_self, hi]
      rfl
    · rw [Function.update_of_ne hj]
  have hcount : ∀ j, (Function.update t i (Advance.done o') j).counted = (t j).counted := fun j => by
    by_cases hj : j = i
    · rw [hj, Function.update_self, hi]
      rfl
    · rw [Function.update_of_ne hj]
  have hback : ∀ j s, Function.update t i (Advance.done o') j = s → s.isDone = false → t j = s := by
    intro j s hj hs
    by_cases hji : j = i
    · rw [hji, Function.update_self] at hj
      rw [← hj] at hs
      cases hs
    · rwa [Function.update_of_ne hji] at hj
  refine ⟨h.type, h.total, ?_, ?_, fun j wf' hj => h.held j wf' (hback j _ hj rfl),
    fun j k _ _ hj hk => h.alone j k _ _ (hback j _ hj rfl) (hback k _ hk rfl), fun j n hj => ?_,
    fun ⟨j, hj⟩ => h.running ⟨j, hdone j ▸ hj⟩, fun hall => h.final fun j => hdone j ▸ hall j⟩
  · rw [tally_same (by rw [hi]; rfl)]
    exact h.completed
  · rw [tally_same (by rw [hi]; rfl)]
    exact h.failures
  · obtain ⟨hn, hall⟩ := h.last j n (hback j _ hj rfl)
    exact ⟨hn, fun k => ⟨by rw [hcount]; exact (hall k).1, fun hk => by rw [hdone]; exact (hall k).2 hk⟩⟩

/-- A call reads the record while no other holds it. -/
theorem Tallied.read (h : Tallied failed t wf) (hi : t i = .idle)
    (hfree : ∀ j wf', t j ≠ .holding wf') : Tallied failed (Function.update t i (.holding wf)) wf := by
  have hheld : ∀ j wf', Function.update t i (Advance.holding wf) j = .holding wf' →
      j = i ∧ wf' = wf := fun j wf' hj => by
    by_cases hji : j = i
    · rw [hji, Function.update_self] at hj
      exact ⟨hji, (Advance.holding.inj hj).symm⟩
    · rw [Function.update_of_ne hji] at hj
      exact absurd hj (hfree j wf')
  refine ⟨h.type, h.total, ?_, ?_, fun j wf' hj => (hheld j wf' hj).2,
    fun j k _ _ hj hk => (hheld j _ hj).1.trans (hheld k _ hk).1.symm, fun j n hj => ?_,
    fun _ => h.running ⟨i, by rw [hi]; rfl⟩, fun hall => ?_⟩
  · rw [tally_same (by rw [hi]; rfl)]
    exact h.completed
  · rw [tally_same (by rw [hi]; rfl)]
    exact h.failures
  · by_cases hji : j = i
    · rw [hji, Function.update_self] at hj
      cases hj
    · -- the last call writes the final state after all have counted
      rw [Function.update_of_ne hji] at hj
      have hc := ((h.last j n hj).2 i).1
      rw [hi] at hc
      cases hc
  · have := hall i
    rw [Function.update_self] at this
    cases this

/-- The counters after one more job are the numbers after it. -/
theorem Tallied.counters (h : Tallied failed t wf) (hi : t i = .holding wf) {s : Advance}
    (hs : s.counted = true) :
    completedAfter wf (failed i) =
        tally (asCompleted failed) (Function.update t i s) ∧
      failedAfter wf (failed i) =
        tally (asFailed failed) (Function.update t i s) := by
  have hcomp := h.completed
  have hfail := h.failures
  cases hf : failed i with
  | false =>
    rw [tally_enter (by rw [hi]; rfl) (by rw [asCompleted, hs, hf]; rfl),
      tally_same (by rw [asFailed, asFailed, hs, hi, hf]; rfl)]
    simp only [completedAfter, failedAfter, if_neg (by decide : ¬false = true)]
    omega
  | true =>
    rw [tally_same (by rw [asCompleted, asCompleted, hs, hi, hf]; rfl),
      tally_enter (by rw [hi]; rfl) (by rw [asFailed, hs, hf]; rfl)]
    simp only [completedAfter, failedAfter, if_pos]
    omega

/-- All jobs are done when the counters say so. -/
theorem Tallied.allFinished_iff (h : Tallied failed t wf) (hi : t i = .holding wf) {s : Advance}
    (hs : s.counted = true) : allFinished wf (failed i) = true ↔
      ∀ j, (Function.update t i s j).counted = true := by
  obtain ⟨hcomp, hfail⟩ := h.counters hi hs
  have hsum : tally (asFailed failed) (Function.update t i s) +
      tally (asCompleted failed) (Function.update t i s) = _ :=
    tally_split (fun (_ : ι) (s : Advance) => s.counted) (fun i _ => failed i) _
  have hle := tally_le (fun (_ : ι) (s : Advance) => s.counted) (Function.update t i s)
  rw [allFinished, decide_eq_true_eq, hcomp, hfail, h.total,
    ← tally_eq_card (p := fun (_ : ι) (s : Advance) => s.counted)]
  omega

/-- The counters are written by a call that holds the record. -/
theorem Tallied.count (h : Tallied failed t wf) (hi : t i = .holding wf) :
    Tallied failed (Function.update t i (if allFinished wf (failed i) then
      .finishing (failedAfter wf (failed i)) else .done none))
      (wf.update (counterUpdates wf (failed i))) := by
  have hrun : wf.state = .running := h.running ⟨i, by rw [hi]; rfl⟩
  have hnone : ∀ j n, t j ≠ .finishing n := fun j n hj => by
    have hc := ((h.last j n hj).2 i).1
    rw [hi] at hc
    cases hc
  generalize hs : (if allFinished wf (failed i) then Advance.finishing (failedAfter wf (failed i))
    else .done none) = s
  have hcs : s.counted = true := by
    rw [← hs]
    split <;> rfl
  have hne : ∀ wf', s ≠ .holding wf' := fun wf' hw => by
    rw [hw] at hcs
    cases hcs
  have hall := h.allFinished_iff hi hcs
  obtain ⟨hcomp, hfail⟩ := h.counters hi hcs
  refine ⟨h.type, h.total, hcomp, hfail, fun j wf' hj => ?_, fun j k wf₁ wf₂ hj _ => ?_,
    fun j n hj => ?_, fun _ => hrun, fun hdone => ?_⟩
  · by_cases hji : j = i
    · rw [hji, Function.update_self] at hj
      exact absurd hj (hne wf')
    · rw [Function.update_of_ne hji] at hj
      exact absurd (h.alone j i _ _ hj hi) hji
  · by_cases hji : j = i
    · rw [hji, Function.update_self] at hj
      exact absurd hj (hne wf₁)
    · rw [Function.update_of_ne hji] at hj
      exact absurd (h.alone j i _ _ hj hi) hji
  · by_cases hji : j = i
    · subst hji
      rw [Function.update_self] at hj
      cases hfin : allFinished wf (failed j) with
      | false =>
        rw [hfin] at hs
        rw [← hs] at hj
        cases hj
      | true =>
        rw [hfin, if_pos rfl, hj] at hs
        refine ⟨(Advance.finishing.inj hs).symm, fun k => ⟨hall.mp hfin k, fun hk => ?_⟩⟩
        have hck := hall.mp hfin k
        rw [Function.update_of_ne hk] at hck ⊢
        rcases Advance.counted_cases hck with ⟨m, hm⟩ | ⟨o, ho⟩
        · exact absurd hm (hnone k m)
        · rw [ho]
          rfl
    · rw [Function.update_of_ne hji] at hj
      exact absurd hj (hnone j n)
  · -- not all are done: the last one would have found the counters full
    have hfin : allFinished wf (failed i) = true := hall.mpr fun j => by
      have hj := hdone j
      cases hsj : Function.update t i s j <;> rw [hsj] at hj <;> first | rfl | cases hj
    have hi' := hdone i
    rw [Function.update_self, ← hs, hfin] at hi'
    cases hi'

/-- The last call writes the final state. -/
theorem Tallied.finish (h : Tallied failed t wf) {n : Int} (hi : t i = .finishing n)
    (now : String) : Tallied failed (Function.update t i (.done none))
      (wf.update [.state (finalState n), .completedAt now]) := by
  obtain ⟨hn, hall⟩ := h.last i n hi
  have hdone : ∀ j, (Function.update t i (Advance.done none) j).isDone = true := fun j => by
    by_cases hj : j = i
    · rw [hj, Function.update_self]
      rfl
    · rw [Function.update_of_ne hj]
      exact (hall j).2 hj
  have hnot : ∀ j s, Function.update t i (Advance.done none) j = s → s.isDone = true := fun j s hj =>
    hj ▸ hdone j
  refine ⟨h.type, h.total, ?_, ?_, fun j wf' hj => (by cases hnot j _ hj),
    fun j _ _ _ hj => (by cases hnot j _ hj), fun j m hj => (by cases hnot j _ hj),
    fun ⟨j, hj⟩ => ?_, fun _ => ?_⟩
  · rw [tally_same (by rw [hi]; rfl)]
    exact h.completed
  · rw [tally_same (by rw [hi]; rfl)]
    exact h.failures
  · rw [hdone j] at hj
    cases hj
  · rw [hn]
    rfl

end

end OjsSqs
