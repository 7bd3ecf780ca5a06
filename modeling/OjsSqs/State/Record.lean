import OjsSqs.Core.Job

/-! # The records of the state store

`JobRecord` is a job as one item of the table, `jobToRecord` and `recordToJob`
convert between the two, and a `JobUpdate` is one entry of the map that
`UpdateJobState` writes. -/
namespace OjsSqs

/-- The opaque identifier SQS gives a message. -/
abbrev MessageId := Nat

/-- The opaque handle of one receive of a message: which message, and which
receive of it. SQS makes a new one each time. -/
structure Receipt where
  message : MessageId
  serial : Nat
deriving DecidableEq, Repr

/-- `state.JobRecord`. `sqsReceiptHandle := none` is the empty string. -/
structure JobRecord where
  id : String
  type : String := ""
  state : JobState
  queue : String := ""
  args : String := ""
  metadata : String := ""
  priority : Option Int := none
  attempt : Int := 0
  maxAttempts : Option Int := none
  timeoutMs : Option Int := none
  createdAt : String := ""
  enqueuedAt : String := ""
  startedAt : String := ""
  completedAt : String := ""
  cancelledAt : String := ""
  scheduledAt : String := ""
  result : String := ""
  error : Option RawMessage := none
  errorHistory : JsonText (List RawMessage) := .empty
  tags : List String := []
  retry : JsonText RetryPolicy := .empty
  unique : JsonText UniquePolicy := .empty
  expiresAt : String := ""
  retryDelayMs : Option Int := none
  visibilityTimeoutMs : Option Int := none
  workflowID : String := ""
  workflowStep : Int := 0
  workerID : String := ""
  sqsReceiptHandle : Option Receipt := none
  sqsMessageID : Option MessageId := none
  unknownFields : List (String × String) := []
  parentResults : JsonText (List RawMessage) := .empty
  gsi1pk : String := ""
  gsi1sk : String := ""
  gsi2pk : String := ""
  gsi2sk : String := ""
deriving DecidableEq, Repr

/-- An empty attribute is an absent JSON value. -/
def rawOfText (s : String) : Option String := if s = "" then none else some s

/-- `string(raw)` when the value is present. -/
def textOfRaw : Option String → String
  | some s => s
  | none => ""

/-- `RecordToJob` -/
def recordToJob (r : JobRecord) : Job where
  id := r.id
  type := r.type
  state := r.state
  queue := r.queue
  attempt := r.attempt
  maxAttempts := r.maxAttempts
  priority := r.priority
  timeoutMs := r.timeoutMs
  createdAt := r.createdAt
  enqueuedAt := r.enqueuedAt
  startedAt := r.startedAt
  completedAt := r.completedAt
  cancelledAt := r.cancelledAt
  scheduledAt := r.scheduledAt
  expiresAt := r.expiresAt
  tags := r.tags
  retryDelayMs := r.retryDelayMs
  visibilityTimeoutMs := r.visibilityTimeoutMs
  workflowID := r.workflowID
  workflowStep := r.workflowStep
  args := rawOfText r.args
  metadata := rawOfText r.metadata
  result := rawOfText r.result
  error := r.error
  errors := r.errorHistory.unmarshal.getD []
  retry := r.retry.unmarshal
  unique := r.unique.unmarshal
  parentResults := r.parentResults.unmarshal.getD []
  unknownFields := r.unknownFields

/-- The index keys of a job: its queue, and its state with the creation time. -/
def gsi1pkOf (queue : String) : String := "QUEUE#" ++ queue
def gsi1skOf (state : JobState) (createdAt : String) : String :=
  "STATE#" ++ state.name ++ "#" ++ createdAt
def gsi2pkOf (state : JobState) : String := "STATE#" ++ state.name

/-- The encoding of a list, left out when the list is empty. -/
def jsonOfList {α : Type} : List α → JsonText (List α)
  | [] => .empty
  | l => .of l

/-- The encoding of an optional policy. -/
def jsonOfOption {α : Type} : Option α → JsonText α
  | none => .empty
  | some a => .of a

/-- `JobToRecord` -/
def jobToRecord (job : Job) : JobRecord where
  id := job.id
  type := job.type
  state := job.state
  queue := job.queue
  attempt := job.attempt
  maxAttempts := job.maxAttempts
  priority := job.priority
  timeoutMs := job.timeoutMs
  createdAt := job.createdAt
  enqueuedAt := job.enqueuedAt
  startedAt := job.startedAt
  completedAt := job.completedAt
  cancelledAt := job.cancelledAt
  scheduledAt := job.scheduledAt
  expiresAt := job.expiresAt
  tags := job.tags
  retryDelayMs := job.retryDelayMs
  visibilityTimeoutMs := job.visibilityTimeoutMs
  workflowID := job.workflowID
  workflowStep := job.workflowStep
  workerID := ""
  gsi1pk := gsi1pkOf job.queue
  gsi1sk := gsi1skOf job.state job.createdAt
  gsi2pk := gsi2pkOf job.state
  gsi2sk := job.createdAt
  args := textOfRaw job.args
  metadata := textOfRaw job.metadata
  result := textOfRaw job.result
  error := job.error
  errorHistory := jsonOfList job.errors
  retry := jsonOfOption job.retry
  unique := jsonOfOption job.unique
  parentResults := jsonOfList job.parentResults
  unknownFields := job.unknownFields

/-- One entry of the `updates` map of `UpdateJobState`. -/
inductive JobUpdate where
  | state (s : JobState)
  | startedAt (t : String)
  | workerID (w : String)
  | sqsReceiptHandle (h : Option Receipt)
  | sqsMessageID (m : MessageId)
  | completedAt (t : String)
  | cancelledAt (t : String)
  | enqueuedAt (t : String)
  | result (r : String)
  | errorData (e : Option RawMessage)
  | errorHistory (h : JsonText (List RawMessage))
  | attempt (n : Int)
  | retryDelayMs (n : Option Int)
deriving DecidableEq, Repr

/-- The attribute of the item an entry sets. -/
def JobUpdate.key : JobUpdate → String
  | .state _ => "state"
  | .startedAt _ => "started_at"
  | .workerID _ => "worker_id"
  | .sqsReceiptHandle _ => "sqs_receipt_handle"
  | .sqsMessageID _ => "sqs_message_id"
  | .completedAt _ => "completed_at"
  | .cancelledAt _ => "cancelled_at"
  | .enqueuedAt _ => "enqueued_at"
  | .result _ => "result"
  | .errorData _ => "error_data"
  | .errorHistory _ => "error_history"
  | .attempt _ => "attempt"
  | .retryDelayMs _ => "retry_delay_ms"

def JobUpdate.apply : JobUpdate → JobRecord → JobRecord
  | .state s, r => { r with state := s }
  | .startedAt t, r => { r with startedAt := t }
  | .workerID w, r => { r with workerID := w }
  | .sqsReceiptHandle h, r => { r with sqsReceiptHandle := h }
  | .sqsMessageID m, r => { r with sqsMessageID := some m }
  | .completedAt t, r => { r with completedAt := t }
  | .cancelledAt t, r => { r with cancelledAt := t }
  | .enqueuedAt t, r => { r with enqueuedAt := t }
  | .result s, r => { r with result := s }
  | .errorData e, r => { r with error := e }
  | .errorHistory h, r => { r with errorHistory := h }
  | .attempt n, r => { r with attempt := n }
  | .retryDelayMs n, r => { r with retryDelayMs := n }

/-- The entries of a map, applied one after the other. -/
def applyUpdates (updates : List JobUpdate) (r : JobRecord) : JobRecord :=
  updates.foldl (fun r u => u.apply r) r

/-- The item after `UpdateItem`: the entries, the new state and the two index
attributes. -/
def JobRecord.update (r : JobRecord) (newState : JobState) (updates : List JobUpdate)
    (gsi1sk gsi2pk : String) : JobRecord :=
  { applyUpdates updates r with state := newState, gsi1sk := gsi1sk, gsi2pk := gsi2pk }

/-! No update touches what identifies a job, or its policies. -/

@[simp] theorem JobUpdate.apply_id (u : JobUpdate) (r : JobRecord) : (u.apply r).id = r.id := by
  cases u <;> rfl

@[simp] theorem JobUpdate.apply_queue (u : JobUpdate) (r : JobRecord) :
    (u.apply r).queue = r.queue := by cases u <;> rfl

@[simp] theorem JobUpdate.apply_workflowID (u : JobUpdate) (r : JobRecord) :
    (u.apply r).workflowID = r.workflowID := by cases u <;> rfl

@[simp] theorem JobUpdate.apply_workflowStep (u : JobUpdate) (r : JobRecord) :
    (u.apply r).workflowStep = r.workflowStep := by cases u <;> rfl

@[simp] theorem JobUpdate.apply_createdAt (u : JobUpdate) (r : JobRecord) :
    (u.apply r).createdAt = r.createdAt := by cases u <;> rfl

@[simp] theorem JobUpdate.apply_expiresAt (u : JobUpdate) (r : JobRecord) :
    (u.apply r).expiresAt = r.expiresAt := by cases u <;> rfl

@[simp] theorem JobUpdate.apply_unique (u : JobUpdate) (r : JobRecord) :
    (u.apply r).unique = r.unique := by cases u <;> rfl

/-- A field no update touches is not touched by a list of them. -/
theorem applyUpdates_field {β : Type} (f : JobRecord → β)
    (hf : ∀ (u : JobUpdate) (r : JobRecord), f (u.apply r) = f r)
    (updates : List JobUpdate) (r : JobRecord) : f (applyUpdates updates r) = f r := by
  induction updates generalizing r with
  | nil => rfl
  | cons u us ih => exact (ih (u.apply r)).trans (hf u r)

variable (r : JobRecord) (s : JobState) (us : List JobUpdate) (sk pk : String)

@[simp] theorem JobRecord.update_state : (r.update s us sk pk).state = s := rfl

@[simp] theorem JobRecord.update_id : (r.update s us sk pk).id = r.id :=
  applyUpdates_field (·.id) JobUpdate.apply_id us r

@[simp] theorem JobRecord.update_queue : (r.update s us sk pk).queue = r.queue :=
  applyUpdates_field (·.queue) JobUpdate.apply_queue us r

@[simp] theorem JobRecord.update_workflowID :
    (r.update s us sk pk).workflowID = r.workflowID :=
  applyUpdates_field (·.workflowID) JobUpdate.apply_workflowID us r

@[simp] theorem JobRecord.update_workflowStep :
    (r.update s us sk pk).workflowStep = r.workflowStep :=
  applyUpdates_field (·.workflowStep) JobUpdate.apply_workflowStep us r

@[simp] theorem JobRecord.update_expiresAt : (r.update s us sk pk).expiresAt = r.expiresAt :=
  applyUpdates_field (·.expiresAt) JobUpdate.apply_expiresAt us r

@[simp] theorem JobRecord.update_createdAt : (r.update s us sk pk).createdAt = r.createdAt :=
  applyUpdates_field (·.createdAt) JobUpdate.apply_createdAt us r

@[simp] theorem JobRecord.update_unique : (r.update s us sk pk).unique = r.unique :=
  applyUpdates_field (·.unique) JobUpdate.apply_unique us r

@[simp] theorem JobRecord.update_sqsReceiptHandle :
    (r.update s us sk pk).sqsReceiptHandle = (applyUpdates us r).sqsReceiptHandle := rfl

/-- The record without what updates write: what stays the same of a job. -/
def JobRecord.fixed (r : JobRecord) : JobRecord :=
  { r with
    state := .available
    attempt := 0
    enqueuedAt := ""
    startedAt := ""
    completedAt := ""
    cancelledAt := ""
    result := ""
    error := none
    errorHistory := .empty
    retryDelayMs := none
    workerID := ""
    sqsReceiptHandle := none
    sqsMessageID := none
    gsi1sk := ""
    gsi2pk := "" }

theorem JobUpdate.apply_fixed (u : JobUpdate) (r : JobRecord) : (u.apply r).fixed = r.fixed := by
  cases u <;> rfl

theorem JobRecord.update_fixed : (r.update s us sk pk).fixed = r.fixed :=
  applyUpdates_field (·.fixed) JobUpdate.apply_fixed us r

/-- `state.WorkflowRecord`. The callbacks and the job definitions are kept as
the values their JSON encodes. -/
structure WorkflowCallback where
  type : String
  args : Option String := none
  queue : String := ""
deriving DecidableEq, Repr

structure WorkflowCallbacks where
  onComplete : Option WorkflowCallback := none
  onSuccess : Option WorkflowCallback := none
  onFailure : Option WorkflowCallback := none
deriving DecidableEq, Repr

/-- `core.WorkflowJobRequest`, with the options the workflow code reads. -/
structure WorkflowJobRequest where
  type : String
  args : Option String := none
  queue : String := ""
  retryPolicy : Option RetryPolicy := none
  retry : Option RetryPolicy := none
deriving DecidableEq, Repr

inductive WorkflowState where
  | running | completed | failed | cancelled
deriving DecidableEq, Repr

structure WorkflowRecord where
  id : String
  type : String
  name : String := ""
  state : WorkflowState
  total : Int
  completed : Int
  failed : Int
  createdAt : String := ""
  completedAt : String := ""
  callbacks : JsonText WorkflowCallbacks := .empty
  jobDefs : JsonText (List WorkflowJobRequest) := .empty
deriving DecidableEq, Repr

/-- One entry of the `updates` map of `UpdateWorkflow`. -/
inductive WorkflowUpdate where
  | completed (n : Int)
  | failed (n : Int)
  | state (s : WorkflowState)
  | completedAt (t : String)
deriving DecidableEq, Repr

def WorkflowUpdate.apply : WorkflowUpdate → WorkflowRecord → WorkflowRecord
  | .completed n, wf => { wf with completed := n }
  | .failed n, wf => { wf with failed := n }
  | .state s, wf => { wf with state := s }
  | .completedAt t, wf => { wf with completedAt := t }

def WorkflowRecord.update (wf : WorkflowRecord) (updates : List WorkflowUpdate) : WorkflowRecord :=
  updates.foldl (fun wf u => u.apply wf) wf

/-- `core.CronJobTemplate`, with the options the cron code reads. -/
structure CronJobTemplate where
  type : String
  args : Option String := none
  queue : String := ""
deriving DecidableEq, Repr

/-- `state.CronRecord` -/
structure CronRecord where
  name : String
  expression : String
  timezone : String := ""
  overlapPolicy : String := ""
  enabled : Bool := false
  jobTemplate : JsonText CronJobTemplate := .empty
  createdAt : String := ""
  nextRunAt : String := ""
  lastRunAt : String := ""
  queue : String := ""
deriving DecidableEq, Repr

end OjsSqs
