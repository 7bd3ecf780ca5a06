import OjsSqs.Sqs.Crons
import OjsSqs.Writes.Operations

/-! # What the work on workflows and crons keeps

This work consists of calls about workflows and crons, which leave the jobs
alone, and of pushes of new jobs without a unique policy and without errors. An invariant that
both keep is kept by every operation on workflows or crons. -/
namespace OjsSqs
open Calls

/-- A call about workflows or crons, or one that only reads. -/
def Call.ofFlows : Call → Bool
  | .dynamo (.getJobItem _) | .dynamo (.putWorkflowItem _) | .dynamo (.getWorkflowItem _)
  | .dynamo (.updateWorkflowItem _ _) | .dynamo (.putWorkflowJobItem _ _)
  | .dynamo (.queryWorkflowJobs _) | .dynamo (.putWorkflowResultItem _ _ _)
  | .dynamo (.queryWorkflowResults _) | .dynamo (.putCronItem _) | .dynamo (.getCronItem _)
  | .dynamo (.deleteCronItem _) | .dynamo .scanCrons | .dynamo (.putCronLockItem _ _ _)
  | .dynamo (.getCronInstanceItem _) | .dynamo (.putCronInstanceItem _ _) | .proc .now
  | .proc .newUUIDv7 => true
  | _ => false

/-- What such an operation needs of an invariant. -/
structure FlowKeeps (cfg : Config) (ρ : Rules) (I : World → Prop) : Prop where
  calls : ∀ (c : Call) w (a : Answer c) w', c.ofFlows = true → I w → ρ.env c w a w' → I w'
  push : ∀ job : Job, job.id = "" → job.unique = none → job.errors = [] →
    ρ.env.Keeps I (push cfg job)

namespace FlowKeeps

variable {cfg : Config} {ρ : Rules} {I : World → Prop} (F : FlowKeeps cfg ρ I)
include F

theorem only {α : Type} {p : M α} (hp : p.Only (·.ofFlows = true)) : ρ.env.Keeps I p :=
  fun _ h => hp.keeps I F.calls h

theorem getJob (id : String) : ρ.env.Keeps I (OjsSqs.getJob id) := F.only (only_getJob rfl)

theorem timeNow : ρ.env.Keeps I OjsSqs.timeNow := F.only (Prog.only_perform rfl)

theorem nowFormatted : ρ.env.Keeps I (OjsSqs.nowFormatted cfg) :=
  keeps_bind F.timeNow fun _ => keeps_pure _

theorem request {context : String} {c : DynamoCall} (hc : (Call.dynamo c).ofFlows = true) :
    ρ.env.Keeps I (OjsSqs.request context c) := F.only (only_request hc)

theorem updateWorkflow (id : String) (us : List WorkflowUpdate) :
    ρ.env.Keeps I (OjsSqs.updateWorkflow id us) := by
  rw [OjsSqs.updateWorkflow]
  split
  · exact keeps_pure _
  · exact F.request (c := .updateWorkflowItem id us) rfl

theorem getWorkflowRecord (id : String) : ρ.env.Keeps I (OjsSqs.getWorkflowRecord id) := by
  refine keeps_bind (F.only (Prog.only_perform rfl)) fun a => ?_
  split <;> exact keeps_pure _

theorem storeResult (wf : String) (step : Int) (result : Option String) :
    ρ.env.Keeps I (OjsSqs.storeResult wf step result) := by
  cases result with
  | none => exact keeps_pure _
  | some res =>
    rw [OjsSqs.storeResult]
    split
    · exact keeps_pure _
    · exact keeps_bind (F.request (c := .putWorkflowResultItem wf step res) rfl) fun _ => keeps_pure _

theorem pushWorkflowJob (wf : String) {job : Job} (hid : job.id = "") (hu : job.unique = none)
    (he : job.errors = []) : ρ.env.Keeps I (OjsSqs.pushWorkflowJob cfg wf job) := by
  refine keeps_bind (F.push job hid hu he) fun a => ?_
  cases a with
  | error e => exact keeps_pure _
  | ok created =>
    exact keeps_bind (F.request (c := .putWorkflowJobItem wf _) rfl) fun _ => keeps_pure _

theorem fireIfDefined (cb : Option WorkflowCallback) :
    ρ.env.Keeps I (OjsSqs.fireIfDefined cfg cb) := by
  cases cb with
  | none => exact keeps_pure _
  | some cb => exact keeps_bind (F.push _ rfl rfl rfl) fun _ => keeps_pure _

theorem fireBatchCallbacks (wf : WorkflowRecord) (hasFailure : Bool) :
    ρ.env.Keeps I (OjsSqs.fireBatchCallbacks cfg wf hasFailure) := by
  rw [OjsSqs.fireBatchCallbacks]
  split
  · exact keeps_pure _
  · refine keeps_bind (F.fireIfDefined _) fun _ => ?_
    split <;> exact F.fireIfDefined _

theorem advanceChain (wfID : String) (wf : WorkflowRecord) (step : Int) (failed : Bool) :
    ρ.env.Keeps I (OjsSqs.advanceChain cfg wfID wf step failed) := by
  have hend : ∀ us : String → List WorkflowUpdate, ρ.env.Keeps I (do
      let now ← OjsSqs.nowFormatted cfg
      let _ ← OjsSqs.updateWorkflow wfID (us now)
      return .ok () : M (Except Error Unit)) := fun us =>
    keeps_bind F.nowFormatted fun now => keeps_bind (F.updateWorkflow _ _) fun _ => keeps_pure _
  rw [OjsSqs.advanceChain]
  split
  · exact hend _
  · split
    · exact hend _
    · refine keeps_bind (F.updateWorkflow _ _) fun _ => ?_
      rw [enqueueChainStep]
      split
      · exact keeps_pure _
      · split
        · exact keeps_pure _
        · exact keeps_bind (F.request (c := .queryWorkflowResults wfID) rfl) fun _ =>
            F.pushWorkflowJob wfID rfl rfl rfl

theorem advanceGroup (wfID : String) (wf : WorkflowRecord) (failed : Bool) :
    ρ.env.Keeps I (OjsSqs.advanceGroup cfg wfID wf failed) := by
  refine keeps_bind (F.updateWorkflow _ _) fun _ => ?_
  split
  · refine keeps_bind F.nowFormatted fun now => ?_
    refine keeps_bind (F.updateWorkflow _ _) fun _ => ?_
    split
    · exact keeps_bind (F.fireBatchCallbacks _ _) fun _ => keeps_pure _
    · exact keeps_pure _
  · exact keeps_pure _

theorem advanceWorkflow (wfID jobID : String) (result : Option String) (failed : Bool) :
    ρ.env.Keeps I (OjsSqs.advanceWorkflow cfg wfID jobID result failed) := by
  refine keeps_bind (F.getWorkflowRecord wfID) fun a => ?_
  split
  · exact keeps_pure _
  · split
    · exact keeps_pure _
    · refine keeps_bind (F.getJob _) fun a => ?_
      split
      · exact keeps_pure _
      · refine keeps_bind (F.storeResult _ _ _) fun _ => ?_
        split
        · exact F.advanceChain _ _ _ _
        · exact F.advanceGroup _ _ _

theorem advanceWorkflowOf (id : String) (s : JobState) (result : Option String) :
    ρ.env.Keeps I (OjsSqs.advanceWorkflowOf cfg id s result) := by
  refine keeps_bind (F.getJob id) fun a => ?_
  split
  · exact keeps_pure _
  · split
    · exact keeps_pure _
    · exact keeps_bind (F.advanceWorkflow _ _ _ _) fun _ => keeps_pure _

/-! ## The workflow calls -/

theorem pushWorkflowJobs (wfID : String) (steps : List WorkflowJobRequest) (stepIdx : Int) :
    ρ.env.Keeps I (OjsSqs.pushWorkflowJobs cfg wfID stepIdx steps) := by
  induction steps generalizing stepIdx with
  | nil => exact keeps_pure _
  | cons step steps ih =>
    refine keeps_bind (F.pushWorkflowJob wfID rfl rfl rfl) fun a => ?_
    cases a with
    | error e => exact keeps_pure _
    | ok _ => exact ih _

theorem createWorkflow (req : WorkflowRequest) :
    ρ.env.Keeps I (OjsSqs.createWorkflow cfg req) := by
  refine keeps_bind F.timeNow fun now => ?_
  refine keeps_bind (F.only (Prog.only_perform rfl)) fun wfID => ?_
  refine keeps_bind (F.request (c := .putWorkflowItem _) rfl) fun a => ?_
  cases a with
  | error e => exact keeps_pure _
  | ok u =>
    dsimp only
    generalize (if req.type = "chain" then _ else _ : List WorkflowJobRequest) = first
    by_cases hnil : req.type = "chain" ∧ req.jobList = []
    · rw [if_pos hnil]
      exact keeps_pure _
    · rw [if_neg hnil]
      refine keeps_bind (F.pushWorkflowJobs _ _ _) fun a => ?_
      split <;> exact keeps_pure _

/-- A cancel of a workflow, when cancels of jobs keep the invariant too. -/
theorem cancelWorkflow (hc : ∀ id, ρ.env.Keeps I (cancel cfg id)) (id : String) :
    ρ.env.Keeps I (OjsSqs.cancelWorkflow cfg id) := by
  have hjobs : ∀ ids, ρ.env.Keeps I (cancelJobs cfg ids) := by
    intro ids
    induction ids with
    | nil => exact keeps_pure _
    | cons id ids ih =>
      refine keeps_bind (F.getJob id) fun a => ?_
      split
      · exact ih
      · split
        · exact ih
        · exact keeps_bind (hc id) fun _ => ih
  refine keeps_bind (keeps_bind (F.getWorkflowRecord id) fun a => ?_) fun a => ?_
  · split <;> exact keeps_pure _
  · split
    · exact keeps_pure _
    · split
      · exact keeps_pure _
      · refine keeps_bind (F.request (c := .queryWorkflowJobs id) rfl) fun _ => ?_
        refine keeps_bind (hjobs _) fun _ => ?_
        refine keeps_bind F.nowFormatted fun now => ?_
        exact keeps_bind (F.updateWorkflow _ _) fun _ => keeps_pure _

/-! ## The crons -/

variable {lib : CronLib} {zone : String}

theorem registerCron (cronJob : CronJob) :
    ρ.env.Keeps I (OjsSqs.registerCron cfg lib zone cronJob) := by
  rw [OjsSqs.registerCron]
  split
  · exact keeps_pure _
  · refine keeps_bind F.timeNow fun now => ?_
    refine keeps_bind (F.request (c := .putCronItem _) rfl) fun a => ?_
    cases a <;> exact keeps_pure _

theorem getCron (name : String) : ρ.env.Keeps I (OjsSqs.getCron name) := by
  refine keeps_bind (F.only (Prog.only_perform rfl)) fun a => ?_
  split <;> exact keeps_pure _

theorem deleteCron (name : String) : ρ.env.Keeps I (OjsSqs.deleteCron name) := by
  refine keeps_bind (F.getCron name) fun a => ?_
  cases a with
  | error e => exact keeps_pure _
  | ok record =>
    refine keeps_bind (F.request (c := .deleteCronItem name) rfl) fun a => ?_
    cases a <;> exact keeps_pure _

theorem putCron (record : CronRecord) : ρ.env.Keeps I (OjsSqs.putCron record) :=
  F.request (c := .putCronItem record) rfl

theorem stillRunning (record : CronRecord) : ρ.env.Keeps I (OjsSqs.stillRunning record) := by
  rw [OjsSqs.stillRunning]
  split
  · exact keeps_pure _
  · refine keeps_bind (keeps_bind (F.only (Prog.only_perform rfl)) fun a => ?_) fun a => ?_
    · split <;> exact keeps_pure _
    · cases a with
      | error e => exact keeps_pure _
      | ok instanceJobID =>
        simp only
        split
        · exact keeps_pure _
        · refine keeps_bind (F.getJob _) fun a => ?_
          cases a <;> exact keeps_pure _

theorem skipRun (now : Time) (record : CronRecord) :
    ρ.env.Keeps I (OjsSqs.skipRun cfg lib zone now record) := by
  rw [OjsSqs.skipRun]
  split
  · exact keeps_pure _
  · refine keeps_bind (F.putCron _) fun a => ?_
    cases a <;> exact keeps_pure _

theorem finishRun (now : Time) (record : CronRecord) :
    ρ.env.Keeps I (OjsSqs.finishRun cfg lib zone now record) := by
  rw [OjsSqs.finishRun]
  split
  · exact keeps_bind (F.putCron _) fun _ => keeps_pure _
  · refine keeps_bind (F.putCron _) fun a => ?_
    cases a <;> exact keeps_pure _

theorem pushRun (now : Time) (record : CronRecord) :
    ρ.env.Keeps I (OjsSqs.pushRun cfg lib zone now record) := by
  rw [OjsSqs.pushRun]
  cases hjob : cronJobOf record with
  | error e => exact keeps_pure _
  | ok job =>
    have hplain : job.id = "" ∧ job.unique = none ∧ job.errors = [] := by
      rw [cronJobOf] at hjob
      split at hjob <;> cases hjob <;> exact ⟨rfl, rfl, rfl⟩
    simp only
    split
    · exact keeps_pure _
    · refine keeps_bind (F.push job hplain.1 hplain.2.1 hplain.2.2) fun a => ?_
      cases a with
      | error e => exact keeps_pure _
      | ok created =>
        refine keeps_bind (F.request (c := .putCronInstanceItem _ _) rfl) fun a => ?_
        cases a with
        | error e => exact keeps_pure _
        | ok _ => exact F.finishRun now record

theorem fireCron (now : Time) (record : CronRecord) :
    ρ.env.Keeps I (OjsSqs.fireCron cfg lib zone now record) := by
  rw [OjsSqs.fireCron]
  split
  · exact keeps_pure _
  · split
    · exact keeps_pure _
    · split
      · exact keeps_pure _
      · refine keeps_bind (keeps_bind F.timeNow fun now => ?_) fun a => ?_
        · refine keeps_bind (F.only (Prog.only_perform rfl)) fun a => ?_
          split <;> exact keeps_pure _
        · split
          · exact keeps_pure _
          · exact keeps_pure _
          · refine keeps_bind (F.stillRunning record) fun a => ?_
            split
            · exact keeps_pure _
            · exact F.skipRun now record
            · exact F.pushRun now record

theorem fireCronJobs : ρ.env.Keeps I (OjsSqs.fireCronJobs cfg lib zone) := by
  have hall : ∀ now records first, ρ.env.Keeps I (fireAll cfg lib zone now records first) := by
    intro now records
    induction records with
    | nil => exact fun first => keeps_pure _
    | cons record records ih =>
      exact fun first => keeps_bind (F.fireCron now record) fun _ => ih _
  refine keeps_bind (F.request (c := .scanCrons) rfl) fun a => ?_
  split
  · exact keeps_pure _
  · exact keeps_bind F.timeNow fun now => hall now _ _

end FlowKeeps
end OjsSqs
