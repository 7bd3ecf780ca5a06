import Mathlib.Data.List.Count
import OjsSqs.Workflows.Following

/-! # What the record of a workflow counts

The record says how many ends of jobs the workflow was told of, and its state
follows from them: it runs until all jobs have ended, or the step of a chain
has failed. -/
namespace OjsSqs
open Calls

/-- One of the jobs was discarded. -/
def anyFailed (es : List Finish) : Bool := es.any (·.failed)

/-- The workflow has ended: all jobs have, or a step of the chain has failed. -/
def WorkflowRequest.isOver (req : WorkflowRequest) (es : List Finish) : Bool :=
  decide (req.jobList.length ≤ es.length) || decide (req.type = "chain") && anyFailed es

/-- The state the workflow is in after these ends. -/
def WorkflowRequest.stateAfter (req : WorkflowRequest) (es : List Finish) : WorkflowState :=
  if req.isOver es then if anyFailed es then .failed else .completed else .running

/-- The record of a workflow that was told of the ends `es`. -/
structure Reckoned (req : WorkflowRequest) (es : List Finish) (wf : WorkflowRecord) : Prop where
  type : wf.type = req.type
  total : wf.total = req.jobList.length
  callbacks : wf.callbacks = jsonOfOption req.callbacks
  jobDefs : wf.jobDefs = .of req.jobList
  completed : wf.completed = es.countP fun e => !e.failed
  failed : wf.failed = es.countP (·.failed)
  state : wf.state = req.stateAfter es
  bound : es.length ≤ req.jobList.length

section
variable {req : WorkflowRequest} {es : List Finish} {wf : WorkflowRecord} {e : Finish}

theorem anyFailed_snoc : anyFailed (es ++ [e]) = (anyFailed es || e.failed) := by
  simp [anyFailed]

theorem anyFailed_iff : anyFailed es = true ↔ 0 < es.countP (·.failed) := by
  rw [anyFailed, List.any_eq_true, List.countP_pos_iff]

theorem isOver_eq_false : req.isOver es = false ↔
    es.length < req.jobList.length ∧ (req.type = "chain" → anyFailed es = false) := by
  rw [WorkflowRequest.isOver, Bool.or_eq_false_iff, decide_eq_false_iff_not, Nat.not_le,
    Bool.and_eq_false_iff, decide_eq_false_iff_not, Decidable.imp_iff_not_or]

theorem Reckoned.isOver (h : Reckoned req es wf) (hrun : wf.state = .running) :
    req.isOver es = false := by
  cases hover : req.isOver es with
  | false => rfl
  | true =>
    have hs := h.state
    rw [hrun, WorkflowRequest.stateAfter, if_pos hover] at hs
    split at hs <;> cases hs

theorem Reckoned.runs (h : Reckoned req es wf) (hover : req.isOver es = false) :
    wf.state = .running := by
  rw [h.state, WorkflowRequest.stateAfter, hover]
  rfl

theorem countP_length (es : List Finish) :
    (es.countP fun e => !e.failed) + es.countP (·.failed) = es.length := by
  rw [Nat.add_comm]
  simpa using (List.length_eq_countP_add_countP (l := es) (·.failed)).symm

theorem workflowRecord_counted {cfg : Config} {wfID : String} {t : Time} (hjobs : req.jobList ≠ []) :
    Reckoned req [] (workflowRecord cfg wfID t req) where
  type := rfl
  total := rfl
  callbacks := rfl
  jobDefs := rfl
  completed := rfl
  failed := rfl
  state := by
    have hover : req.isOver [] = false :=
      isOver_eq_false.mpr ⟨List.length_pos_of_ne_nil hjobs, fun _ => rfl⟩
    rw [WorkflowRequest.stateAfter, hover]
    rfl
  bound := Nat.zero_le _

theorem completedAfter_eq (h : Reckoned req es wf) :
    completedAfter wf e.failed = (es ++ [e]).countP fun e => !e.failed := by
  rw [completedAfter, h.completed, List.countP_append]
  cases hf : e.failed <;> simp [hf]

theorem failedAfter_eq (h : Reckoned req es wf) :
    failedAfter wf e.failed = (es ++ [e]).countP (·.failed) := by
  rw [failedAfter, h.failed, List.countP_append]
  cases hf : e.failed <;> simp [hf]

/-- The workflow ends with this job when it is over then. -/
theorem Reckoned.ends (h : Reckoned req es wf) (hrun : wf.state = .running) :
    wf.ends e.failed = req.isOver (es ++ [e]) := by
  have hlength := countP_length (es ++ [e])
  obtain ⟨-, hchain⟩ := isOver_eq_false.mp (h.isOver hrun)
  have hall : allFinished wf e.failed = decide (req.jobList.length ≤ (es ++ [e]).length) := by
    rw [allFinished, completedAfter_eq h, failedAfter_eq h, h.total, ← hlength]
    norm_cast
  rw [WorkflowRecord.ends, WorkflowRequest.isOver, hall, h.type, anyFailed_snoc]
  by_cases hc : req.type = "chain"
  · rw [hchain hc, Bool.false_or]
  · simp [hc]

theorem Reckoned.endsFailed (h : Reckoned req es wf) (hrun : wf.state = .running) :
    wf.endsFailed e.failed = anyFailed (es ++ [e]) := by
  obtain ⟨-, hchain⟩ := isOver_eq_false.mp (h.isOver hrun)
  rw [WorkflowRecord.endsFailed, h.type]
  split
  · rename_i hc
    rw [anyFailed_snoc, hchain hc, Bool.false_or]
  · rw [failedAfter_eq h, Bool.eq_iff_iff, decide_eq_true_eq, anyFailed_iff]
    exact Int.natCast_pos

/-- **One more job.** -/
theorem Reckoned.advanced (h : Reckoned req es wf) (hrun : wf.state = .running) (now : String) :
    Reckoned req (es ++ [e]) (wf.advanced e.failed now) := by
  have hstate : (wf.advanced e.failed now).state = req.stateAfter (es ++ [e]) := by
    rw [WorkflowRecord.advanced, h.ends hrun, h.endsFailed hrun, WorkflowRequest.stateAfter]
    split
    · rfl
    · exact hrun
  have hbound : (es ++ [e]).length ≤ req.jobList.length := by
    rw [List.length_append]
    exact (isOver_eq_false.mp (h.isOver hrun)).1
  have hcompleted := completedAfter_eq (e := e) h
  have hfailed := failedAfter_eq (e := e) h
  rw [WorkflowRecord.advanced] at hstate ⊢
  split
  · rename_i hends
    rw [if_pos hends] at hstate
    exact ⟨h.type, h.total, h.callbacks, h.jobDefs, hcompleted, hfailed, hstate, hbound⟩
  · rename_i hends
    rw [if_neg hends] at hstate
    exact ⟨h.type, h.total, h.callbacks, h.jobDefs, hcompleted, hfailed, hstate, hbound⟩

end

/-! ## Runs -/

/-- The record of the workflow counts these ends. -/
def ReckonedAs (req : WorkflowRequest) (wfID : String) (es : List Finish) (w : World) : Prop :=
  ∃ wf, w.store.workflows.lookup wfID = some wf ∧ Reckoned req es wf

section
variable {cfg : Config} {lib : CronLib} {ρ : Rules} {req : WorkflowRequest} {flow : Workflow}
  {w w₁ w' : World} {wfID : String} {es : List Finish} {e : Finish} {r : JobRecord}
  {wf : WorkflowRecord}

theorem ReckonedAs.stays (h : ReckonedAs req wfID es w) (hf : FlowStays wfID w w') :
    ReckonedAs req wfID es w' := by
  obtain ⟨wf, hwf, hc⟩ := h
  exact ⟨wf, hf.aside.record.trans hwf, hc⟩

theorem ReckonedAs.counted (h : ReckonedAs req wfID es w) (hm : FlowMoves cfg wfID e r wf w w₁ w') :
    Reckoned req es wf := by
  obtain ⟨wf', hwf, hc⟩ := h
  rw [hm.stored] at hwf
  obtain rfl := Option.some.inj hwf
  exact hc

theorem ReckonedAs.moves (h : ReckonedAs req wfID es w) (hm : FlowMoves cfg wfID e r wf w w₁ w') :
    ReckonedAs req wfID (es ++ [e]) w' := by
  obtain ⟨now, hrecord⟩ := hm.advances.record
  exact ⟨_, hrecord, (h.counted hm).advanced hm.running _⟩

theorem ReckonedAs.runs_iff (h : ReckonedAs req wfID es w) :
    w.flowRuns wfID ↔ req.isOver es = false := by
  obtain ⟨wf, hwf, hc⟩ := h
  constructor
  · intro hrun
    obtain ⟨wf', hwf', hrun⟩ := hrun
    rw [hwf] at hwf'
    obtain rfl := Option.some.inj hwf'
    exact hc.isOver hrun
  · intro hover
    exact ⟨wf, hwf, hc.runs hover⟩

variable (hρ : ρ.faults = false)
include hρ

theorem Creates.agrees (h : Creates cfg lib ρ req flow w₁) : Agrees cfg w₁ := by
  obtain ⟨t, ls, w, hrun, hs⟩ := h
  exact step_agrees hρ (run_agrees hρ (hrun.mono fun _ _ _ h => h.1)) hs

theorem Creates.created (h : Creates cfg lib ρ req flow w₁) :
    ∃ w, Unnamed flow.id w ∧ Created cfg req flow.id w w₁ := by
  obtain ⟨t, ls, w, hrun, hs⟩ := h
  have hcreated := step_creates hρ hs
  exact ⟨w, run_unnamed hρ hcreated.named hrun hcreated.fresh, hcreated⟩

theorem Creates.counted (h : Creates cfg lib ρ req flow w₁) (hjobs : req.jobList ≠ []) :
    ReckonedAs req flow.id [] w₁ := by
  obtain ⟨w, -, hcreated⟩ := h.created hρ
  obtain ⟨t, hstored⟩ := hcreated.stored
  exact ⟨_, hstored, workflowRecord_counted hjobs⟩

theorem Creates.stored (h : Creates cfg lib ρ req flow w₁) :
    flow.id ≠ "" ∧ flow.id ∈ w₁.store.workflows := by
  obtain ⟨w, -, hcreated⟩ := h.created hρ
  obtain ⟨t, hstored⟩ := hcreated.stored
  exact ⟨hcreated.named, AList.lookup_isSome.mp (Option.isSome_iff_exists.mpr ⟨_, hstored⟩)⟩

theorem reckoned_follows (h : Creates cfg lib ρ req flow w₁) (hjobs : req.jobList ≠ [])
    {ls : List SystemLabel} {w : World} {es : List Finish}
    (hrun : Path (Noting (flowNotes flow.id) (FlowStep cfg lib ρ flow.id fun _ _ => True))
      (w₁, []) ls (w, es)) :
    Agrees cfg w ∧ flow.id ∈ w.store.workflows ∧ ReckonedAs req flow.id es w := by
  obtain ⟨hid, hstored⟩ := h.stored hρ
  refine flow_follows hρ hid (h.agrees hρ) hstored (h.counted hρ hjobs) ?_ ?_ hrun
  · intro es w w' _ hI hf _
    exact hI.stays hf
  · intro es e r wf w w₁ w' _ hI hm _
    exact hI.moves hm

end
end OjsSqs
