import OjsSqs.Sqs.Push

/-! # Workflows

`AdvanceWorkflow` is what an Ack or a discarding Nack calls: it counts the
finished job, ends the workflow, and for a chain pushes the next step. -/
namespace OjsSqs
open Calls

variable (cfg : Config)

/-- The queue of a step or a callback. -/
def queueOrDefault (queue : String) : String := if queue = "" then "default" else queue

/-- The retry policy of a step: `retry_policy` goes before `retry`. -/
def WorkflowJobRequest.policy (step : WorkflowJobRequest) : Option RetryPolicy :=
  match step.retryPolicy with
  | some p => some p
  | none => step.retry

/-- The job of a workflow step. -/
def workflowJob (workflowID : String) (step : WorkflowJobRequest) (stepIdx : Int)
    (parentResults : List RawMessage) : Job where
  type := step.type
  args := step.args
  queue := queueOrDefault step.queue
  workflowID := workflowID
  workflowStep := stepIdx
  parentResults := parentResults
  retry := step.policy
  maxAttempts := step.policy.map (·.maxAttempts)

/-- Push a step's job and add it to the workflow's jobs. -/
def pushWorkflowJob (workflowID : String) (job : Job) : M (Except Error Unit) := do
  match ← push cfg job with
  | .error e => return .error e
  | .ok created =>
    let _ ← addWorkflowJob workflowID created.id
    return .ok ()

/-- The results of the steps before `stepIdx`, those that have one. -/
def parentResultsOf (results : List (Int × String)) (stepIdx : Nat) : List RawMessage :=
  (List.range stepIdx).filterMap fun i =>
    (results.find? fun e => e.1 = (i : Int)).map fun e => .text e.2

/-- `enqueueChainStep` -/
def enqueueChainStep (workflowID : String) (wf : WorkflowRecord) (stepIdx : Int) :
    M (Except Error Unit) := do
  match wf.jobDefs.unmarshal with
  | none => return .error (.plain "unmarshal job definitions")
  | some jobDefs =>
    match jobDefs[stepIdx.toNat]? with
    | none => return .ok ()
    | some step =>
      let results ← getWorkflowResults workflowID
      let parentResults := parentResultsOf (results.toOption.getD []) stepIdx.toNat
      pushWorkflowJob cfg workflowID (workflowJob workflowID step stepIdx parentResults)

/-- `fireCallback`: a failed push is only logged. -/
def fireCallback (cb : WorkflowCallback) : M Unit := do
  let _ ← push cfg { type := cb.type, args := cb.args, queue := queueOrDefault cb.queue }
  return ()

/-- A callback that may not be defined. -/
def fireIfDefined (cb : Option WorkflowCallback) : M Unit :=
  match cb with
  | none => return ()
  | some cb => fireCallback cfg cb

/-- `fireBatchCallbacks` -/
def fireBatchCallbacks (wf : WorkflowRecord) (hasFailure : Bool) : M Unit := do
  match wf.callbacks.unmarshal with
  | none => return ()
  | some callbacks =>
    fireIfDefined cfg callbacks.onComplete
    if hasFailure then fireIfDefined cfg callbacks.onFailure
    else fireIfDefined cfg callbacks.onSuccess

/-- The counters of a workflow after one more job has finished. -/
def completedAfter (wf : WorkflowRecord) (failed : Bool) : Int :=
  if failed then wf.completed else wf.completed + 1
def failedAfter (wf : WorkflowRecord) (failed : Bool) : Int :=
  if failed then wf.failed + 1 else wf.failed

/-- The two counters as updates. -/
def counterUpdates (wf : WorkflowRecord) (failed : Bool) : List WorkflowUpdate :=
  [.completed (completedAfter wf failed), .failed (failedAfter wf failed)]

/-- Completed and failed jobs together reach the total. -/
def allFinished (wf : WorkflowRecord) (failed : Bool) : Bool :=
  decide (wf.total ≤ completedAfter wf failed + failedAfter wf failed)

/-- The chain part of `AdvanceWorkflow`. -/
def advanceChain (workflowID : String) (wf : WorkflowRecord) (stepIdx : Int) (failed : Bool) :
    M (Except Error Unit) := do
  if failed then
    let now ← nowFormatted cfg
    let _ ← updateWorkflow workflowID
      (counterUpdates wf failed ++ [.state .failed, .completedAt now])
    return .ok ()
  else if allFinished wf failed then
    let now ← nowFormatted cfg
    let _ ← updateWorkflow workflowID
      (counterUpdates wf failed ++ [.state .completed, .completedAt now])
    return .ok ()
  else
    let _ ← updateWorkflow workflowID (counterUpdates wf failed)
    enqueueChainStep cfg workflowID wf (stepIdx + 1)

/-- A group or batch whose jobs are all done gets its final state. -/
def finishGroup (workflowID : String) (wf : WorkflowRecord) (failed : Bool) :
    M (Except Error Unit) := do
  let finalState := if 0 < failedAfter wf failed then WorkflowState.failed else .completed
  let now ← nowFormatted cfg
  let _ ← updateWorkflow workflowID [.state finalState, .completedAt now]
  if wf.type = "batch" then
    fireBatchCallbacks cfg wf (decide (0 < failedAfter wf failed))
  return .ok ()

/-- The group and batch part of `AdvanceWorkflow`. -/
def advanceGroup (workflowID : String) (wf : WorkflowRecord) (failed : Bool) :
    M (Except Error Unit) := do
  let _ ← updateWorkflow workflowID (counterUpdates wf failed)
  if allFinished wf failed then finishGroup cfg workflowID wf failed
  else return .ok ()

/-- The result of a step is stored when it is not empty. -/
def storeResult (workflowID : String) (stepIdx : Int) (result : Option String) : M Unit := do
  match result with
  | none => return ()
  | some res =>
    if res = "" then return ()
    else
      let _ ← setWorkflowResult workflowID stepIdx res
      return ()

/-- `AdvanceWorkflow` -/
def advanceWorkflow (workflowID jobID : String) (result : Option String) (failed : Bool) :
    M (Except Error Unit) := do
  match ← getWorkflowRecord workflowID with
  | .error _ => return .ok ()
  | .ok wf =>
    if wf.state ≠ .running then return .ok ()
    else
      match ← getJob jobID with
      | .error _ => return .ok ()
      | .ok jobRecord =>
        storeResult workflowID jobRecord.workflowStep result
        if wf.type = "chain" then
          advanceChain cfg workflowID wf jobRecord.workflowStep failed
        else advanceGroup cfg workflowID wf failed

/-- `advanceWorkflow` of the source, the call after an Ack or a Nack: nothing
happens for a job of no workflow. -/
def advanceWorkflowOf (jobID : String) (jobState : JobState) (result : Option String) :
    M Unit := do
  match ← getJob jobID with
  | .error _ => return ()
  | .ok record =>
    if record.workflowID = "" then return ()
    else
      let failed := decide (jobState = .discarded ∨ jobState = .cancelled)
      let _ ← advanceWorkflow cfg record.workflowID jobID result failed
      return ()

/-! ## The workflow calls -/

/-- `core.WorkflowRequest` -/
structure WorkflowRequest where
  type : String
  name : String := ""
  steps : List WorkflowJobRequest := []
  jobs : List WorkflowJobRequest := []
  callbacks : Option WorkflowCallbacks := none
deriving DecidableEq, Repr

/-- `core.Workflow` -/
structure Workflow where
  id : String
  name : String
  type : String
  state : WorkflowState
  createdAt : String
  completedAt : String := ""
  stepsTotal : Option Int := none
  stepsCompleted : Option Int := none
  jobsTotal : Option Int := none
  jobsCompleted : Option Int := none
deriving DecidableEq, Repr

/-- The counters are steps for a chain, and jobs otherwise. -/
def workflowOf (record : WorkflowRecord) : Workflow where
  id := record.id
  name := record.name
  type := record.type
  state := record.state
  createdAt := record.createdAt
  completedAt := record.completedAt
  stepsTotal := if record.type = "chain" then some record.total else none
  stepsCompleted := if record.type = "chain" then some record.completed else none
  jobsTotal := if record.type = "chain" then none else some record.total
  jobsCompleted := if record.type = "chain" then none else some record.completed

/-- A chain uses its steps, a group or batch its jobs. -/
def WorkflowRequest.jobList (req : WorkflowRequest) : List WorkflowJobRequest :=
  if req.type = "chain" then req.steps else req.jobs

/-- The record of a new workflow. -/
def workflowRecord (wfID : String) (now : Time) (req : WorkflowRequest) : WorkflowRecord where
  id := wfID
  type := req.type
  name := req.name
  state := .running
  total := req.jobList.length
  completed := 0
  failed := 0
  createdAt := cfg.formatTime now
  callbacks := jsonOfOption req.callbacks
  jobDefs := .of req.jobList

/-- The jobs of a group or batch, one after the other from the step `stepIdx`. -/
def pushWorkflowJobs (wfID : String) : Int → List WorkflowJobRequest → M (Except Error Unit)
  | _, [] => return .ok ()
  | stepIdx, step :: steps => do
    match ← pushWorkflowJob cfg wfID (workflowJob wfID step stepIdx []) with
    | .error e => return .error e
    | .ok _ => pushWorkflowJobs wfID (stepIdx + 1) steps

/-- `CreateWorkflow` -/
def createWorkflow (req : WorkflowRequest) : M (Except Error Workflow) := do
  let now ← timeNow
  let wfID ← proc .newUUIDv7
  let record := workflowRecord cfg wfID now req
  match ← putWorkflow record with
  | .error e => return .error e
  | .ok _ =>
    -- a chain starts with its first step; without one the source panics at `jobs[0]`
    let first := if req.type = "chain" then req.jobList.take 1 else req.jobList
    if req.type = "chain" ∧ req.jobList = [] then
      return .error (.plain "index out of range [0] with length 0")
    else
      match ← pushWorkflowJobs cfg wfID 0 first with
      | .error e => return .error e
      | .ok _ => return .ok (workflowOf record)

/-- `GetWorkflow` -/
def getWorkflow (id : String) : M (Except Error Workflow) := do
  match ← getWorkflowRecord id with
  | .error _ => return .error (newNotFoundError "Workflow" id)
  | .ok record => return .ok { workflowOf record with id := id }

/-- The text of a workflow's state in the store. -/
def WorkflowState.name : WorkflowState → String
  | .running => "running"
  | .completed => "completed"
  | .failed => "failed"
  | .cancelled => "cancelled"

/-- The jobs of a workflow that are not terminal are cancelled; the errors are
ignored. -/
def cancelJobs : List String → M Unit
  | [] => return ()
  | jobID :: jobIDs => do
    match ← getJob jobID with
    | .error _ => cancelJobs jobIDs
    | .ok record =>
      if isTerminalState record.state then cancelJobs jobIDs
      else
        let _ ← cancel cfg jobID
        cancelJobs jobIDs

/-- `CancelWorkflow` -/
def cancelWorkflow (id : String) : M (Except Error Workflow) := do
  match ← getWorkflow id with
  | .error e => return .error e
  | .ok wf =>
    if wf.state = .completed ∨ wf.state = .failed ∨ wf.state = .cancelled then
      return .error (newConflictError
        ("Cannot cancel workflow in state '" ++ wf.state.name ++ "'.") [])
    else
      let jobIDs ← getWorkflowJobs id
      cancelJobs cfg (jobIDs.toOption.getD [])
      let now ← nowFormatted cfg
      let _ ← updateWorkflow id [.state .cancelled, .completedAt now]
      return .ok { wf with state := .cancelled, completedAt := now }

end OjsSqs
