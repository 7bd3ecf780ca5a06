import Mathlib.Algebra.Group.Nat.Defs
import OjsSqs.Sqs.Workflows

/-! # Fetch, Ack and Nack -/
namespace OjsSqs
open Calls

variable (cfg : Config)

/-! ## Fetch -/

/-- The job of a message has passed its `expires_at`. -/
def expired (now : Time) (job : Job) : Bool :=
  if job.expiresAt = "" then false
  else match cfg.parseRFC3339 job.expiresAt with
    | some t => decide (t < now)
    | none => false

/-- What Fetch writes for a job it hands out. -/
def activeUpdates (now : Time) (workerID : String) (d : Delivery) : List JobUpdate :=
  [.state .active, .startedAt (cfg.formatTime now), .workerID workerID,
    .sqsReceiptHandle (some d.receiptHandle), .sqsMessageID d.messageID]

/-- One received message: the job that is handed out, if any. -/
def fetchMessage (now : Time) (workerID queueURL : String) (d : Delivery) : M (Option Job) := do
  match d.body with
  | none => return none
  | some job =>
    if expired cfg now job then
      let _ ← updateJobState job.id .discarded []
      let _ ← sqs (.deleteMessage queueURL d.receiptHandle)
      return none
    else
      match ← updateJobState job.id .active (activeUpdates cfg now workerID d) with
      | .error _ => return none
      | .ok _ =>
        match ← getJob job.id with
        | .error _ => return none
        | .ok record => return some (recordToJob record)

/-- The messages of one receive, until `count` jobs are there. -/
def fetchMessages (now : Time) (workerID queueURL : String) (count : Int) :
    List Delivery → List Job → M (List Job)
  | [], jobs => return jobs
  | d :: ds, jobs => do
    if count ≤ jobs.length then return jobs
    else
      match ← fetchMessage cfg now workerID queueURL d with
      | none => fetchMessages now workerID queueURL count ds jobs
      | some job => fetchMessages now workerID queueURL count ds (jobs ++ [job])

/-- `int32(n)` -/
def int32 (n : Int) : Int := n.bmod (2 ^ 32)

/-- The visibility timeout of a fetch, in seconds. -/
def visTimeoutSec (visibilityTimeoutMs : Int) : Int :=
  let effective :=
    if visibilityTimeoutMs ≤ 0 then cfg.defaultVisibilityTimeoutMs else visibilityTimeoutMs
  int32 (effective.tdiv 1000)

/-- At most ten messages for each receive. -/
def batchSize (count : Int) (jobs : List Job) : Int := min (count - jobs.length) 10

/-- The receive loop of one queue. `none` when `fuel` receives were not enough
for it to end. -/
def fetchQueue (now : Time) (workerID queueURL : String) (count visSec : Int) :
    Nat → List Job → M (Option (List Job))
  | 0, jobs => return if jobs.length < count then none else some jobs
  | fuel + 1, jobs => do
    if jobs.length < count ∧ 0 < batchSize count jobs then
      match ← sqs (.receiveMessage queueURL (batchSize count jobs).toNat visSec) with
      | .error _ => return some jobs
      | .ok [] => return some jobs
      | .ok (d :: ds) =>
        let jobs ← fetchMessages cfg now workerID queueURL count (d :: ds) jobs
        fetchQueue now workerID queueURL count visSec fuel jobs
    else return some jobs

/-- The queues of a fetch, in their order. -/
def fetchQueues (fuel : Nat) (now : Time) (workerID : String) (count visSec : Int) :
    List String → List Job → M (Option (List Job))
  | [], jobs => return some jobs
  | queue :: queues, jobs => do
    if count ≤ jobs.length then return some jobs
    else
      let paused ← isQueuePaused queue
      if paused.toOption.getD false then
        fetchQueues fuel now workerID count visSec queues jobs
      else
        match ← getOrCreateQueueURL cfg queue with
        | .error _ => fetchQueues fuel now workerID count visSec queues jobs
        | .ok queueURL =>
          match ← fetchQueue cfg now workerID queueURL count visSec fuel jobs with
          | none => return none
          | some jobs => fetchQueues fuel now workerID count visSec queues jobs

/-- `Fetch`, with at most `fuel` receives for each queue. -/
def fetch (fuel : Nat) (queues : List String) (count : Int) (workerID : String)
    (visibilityTimeoutMs : Int) : M (Option (List Job)) := do
  let now ← timeNow
  fetchQueues cfg fuel now workerID count (visTimeoutSec cfg visibilityTimeoutMs) queues []

/-! ## Ack -/

structure AckResponse where
  jobID : String
  state : JobState
  completedAt : String
  job : Option Job
deriving DecidableEq, Repr

/-- The conflict of an Ack or a Nack of a job that is not active. -/
def notActiveError (verb jobID : String) (current : JobState) : Error :=
  newConflictError
    ("Cannot " ++ verb ++ " job not in 'active' state. Current state: '" ++ current.name ++ "'.")
    [("job_id", jobID), ("current_state", current.name), ("expected_state", "active")]

/-- A result is written when it is not empty. -/
def resultUpdate (result : Option String) : List JobUpdate :=
  match result with
  | none => []
  | some res => if res = "" then [] else [.result res]

def ackUpdates (now : String) (result : Option String) : List JobUpdate :=
  [.state .completed, .completedAt now] ++ resultUpdate result ++ [.errorData none]

/-- `Ack` -/
def ack (jobID : String) (result : Option String) : M (Except Error AckResponse) := do
  match ← getJob jobID with
  | .error _ => return .error (newNotFoundError "Job" jobID)
  | .ok record =>
    if record.state ≠ .active then return .error (notActiveError "acknowledge" jobID record.state)
    else
      let now ← nowFormatted cfg
      dropMessage cfg record
      match ← updateJobState jobID .completed (ackUpdates now result) with
      | .error e => return .error (.wrap "ack job" e)
      | .ok _ =>
        let _ ← incrementQueueCompleted record.queue
        advanceWorkflowOf cfg jobID .completed result
        let job ← info jobID
        return .ok ⟨jobID, .completed, now, job.toOption⟩

/-! ## Nack -/

structure NackResponse where
  jobID : String
  state : JobState
  attempt : Int
  maxAttempts : Int
  discardedAt : String := ""
  nextAttemptAt : String := ""
  job : Job
deriving DecidableEq, Repr

/-- `max_attempts` of the record; three when unset. -/
def maxAttemptsOf (record : JobRecord) : Int := record.maxAttempts.getD 3

/-- `ChangeMessageVisibility` to zero for the message the handle names. -/
def releaseMessage (record : JobRecord) : M (Except Error Unit) := do
  match record.sqsReceiptHandle with
  | none => return .ok ()
  | some h =>
    match ← getOrCreateQueueURL cfg record.queue with
    | .error e => return .error (.wrap "resolve queue for requeue" e)
    | .ok queueURL =>
      match ← sqs (.changeMessageVisibility queueURL h 0) with
      | .error e => return .error (failed "requeue SQS message" e)
      | .ok _ => return .ok ()

def requeueUpdates (enqueuedAt : String) : List JobUpdate :=
  [.state .available, .startedAt "", .workerID "", .enqueuedAt enqueuedAt,
    .sqsReceiptHandle none]

/-- The requeue branch of Nack. -/
def nackRequeue (now : Time) (record : JobRecord) (jobID : String) :
    M (Except Error NackResponse) := do
  match ← releaseMessage cfg record with
  | .error e => return .error e
  | .ok _ =>
    match ← updateJobState jobID .available (requeueUpdates (cfg.formatTime now)) with
    | .error e => return .error (.wrap "update requeue state" e)
    | .ok _ =>
      match ← info jobID with
      | .error e => return .error (.wrap "fetch requeued job" e)
      | .ok job => return .ok {
          jobID := jobID
          state := .available
          attempt := record.attempt
          maxAttempts := maxAttemptsOf record
          job := job }

/-- A field that is left out of the error object when it is empty. -/
def nonEmpty (s : String) : Option String := if s = "" then none else some s

/-- The error object of a failure: the type is the error's type, or else its
code; the attempt is the one that failed. -/
def errorObject (jobErr : JobError) (attempt : Int) : ErrorObject where
  message := jobErr.message
  attempt := attempt
  type := (nonEmpty jobErr.type).or (nonEmpty jobErr.code)
  retryable := jobErr.retryable
  details := jobErr.details

/-- The error as JSON, when the worker sent one. -/
def errJSON (jobErr : Option JobError) (attempt : Int) : Option RawMessage :=
  jobErr.map fun e => .errorObject (errorObject e attempt)

/-- The history with the new error at its end. -/
def histJSON (record : JobRecord) (jobErr : Option JobError) : List RawMessage :=
  record.errorHistory.unmarshal.getD [] ++ (errJSON jobErr record.attempt).toList

/-- `matchesPattern`: the anchored regular expression, or equality when the
pattern is not one. -/
def matchesPattern (s pattern : String) : Bool :=
  match cfg.regexpMatch ("^" ++ pattern ++ "$") with
  | some re => re s
  | none => decide (s = pattern)

/-- The worker or the retry policy says the error is not retryable. -/
def isNonRetryable (jobErr : Option JobError) (policy : Option RetryPolicy) : Bool :=
  match jobErr with
  | none => false
  | some e =>
    if e.retryable = some false then true
    else match policy with
      | none => false
      | some p => p.nonRetryableErrors.any fun pattern =>
          let errType := if e.type = "" then e.code else e.type
          matchesPattern cfg errType pattern || matchesPattern cfg e.message pattern

/-- `on_exhaustion`; `discard` by default. -/
def onExhaustion (policy : Option RetryPolicy) : String :=
  match policy with
  | none => "discard"
  | some p => if p.onExhaustion = "" then "discard" else p.onExhaustion

/-- Delete the message the handle names, with the step in the error texts. -/
def deleteMessageOf (record : JobRecord) (step did : String) : M (Except Error Unit) := do
  match record.sqsReceiptHandle with
  | none => return .ok ()
  | some h =>
    match ← getOrCreateQueueURL cfg record.queue with
    | .error e => return .error (.wrap ("resolve queue for " ++ step) e)
    | .ok queueURL =>
      match ← sqs (.deleteMessage queueURL h) with
      | .error e => return .error (failed ("delete " ++ did ++ " SQS message") e)
      | .ok _ => return .ok ()

/-- The error is written when there is one. -/
def errorUpdate (err : Option RawMessage) : List JobUpdate :=
  match err with
  | none => []
  | some e => [.errorData (some e)]

def discardUpdates (discardedAt : String) (record : JobRecord) (jobErr : Option JobError) :
    List JobUpdate :=
  [.state .discarded, .completedAt discardedAt, .errorHistory (.of (histJSON record jobErr)),
    .attempt (record.attempt + 1), .sqsReceiptHandle none] ++
    errorUpdate (errJSON jobErr record.attempt)

/-- The dead letter set takes the job only when the policy asks for it. -/
def markDeadLetter (policy : Option RetryPolicy) (jobID : String) : M (Except Error Unit) :=
  if onExhaustion policy = "dead_letter" then addToDeadLetter jobID else return .ok ()

/-- The discard branch of Nack. -/
def nackDiscard (now : Time) (record : JobRecord) (jobID : String) (jobErr : Option JobError) :
    M (Except Error NackResponse) := do
  let discardedAt := cfg.formatTime now
  match ← deleteMessageOf cfg record "discard" "discarded" with
  | .error e => return .error e
  | .ok _ =>
    match ← updateJobState jobID .discarded (discardUpdates discardedAt record jobErr) with
    | .error e => return .error (.wrap "update discarded state" e)
    | .ok _ =>
      match ← markDeadLetter record.retry.unmarshal jobID with
      | .error e => return .error (.wrap "add to dead letter" e)
      | .ok _ =>
        advanceWorkflowOf cfg jobID .discarded none
        match ← info jobID with
        | .error e => return .error (.wrap "fetch discarded job" e)
        | .ok job => return .ok {
            jobID := jobID
            state := .discarded
            attempt := record.attempt + 1
            maxAttempts := maxAttemptsOf record
            discardedAt := discardedAt
            job := job }

def retryUpdates (backoffMs : Int) (record : JobRecord) (jobErr : Option JobError) :
    List JobUpdate :=
  [.state .retryable, .errorHistory (.of (histJSON record jobErr)),
    .attempt (record.attempt + 1), .retryDelayMs (some backoffMs), .sqsReceiptHandle none] ++
    errorUpdate (errJSON jobErr record.attempt)

/-- The retry branch of Nack. -/
def nackRetry (now : Time) (record : JobRecord) (jobID : String) (jobErr : Option JobError) :
    M (Except Error NackResponse) := do
  let backoff := cfg.calculateBackoff record.retry.unmarshal (record.attempt + 1)
  let nextAttemptAt := now + backoff
  match ← deleteMessageOf cfg record "retry" "retry" with
  | .error e => return .error e
  | .ok _ =>
    match ← updateJobState jobID .retryable
        (retryUpdates (Time.milliseconds backoff) record jobErr) with
    | .error e => return .error (.wrap "update retryable state" e)
    | .ok _ =>
      match ← addRetryJob jobID (Time.unixMilli nextAttemptAt) with
      | .error e => return .error (.wrap "add retry schedule" e)
      | .ok _ =>
        match ← info jobID with
        | .error e => return .error (.wrap "fetch retryable job" e)
        | .ok job => return .ok {
            jobID := jobID
            state := .retryable
            attempt := record.attempt + 1
            maxAttempts := maxAttemptsOf record
            nextAttemptAt := cfg.formatTime nextAttemptAt
            job := job }

/-- The failure ends the job: not retryable, or the last attempt. -/
def exhausts (record : JobRecord) (jobErr : Option JobError) : Bool :=
  isNonRetryable cfg jobErr record.retry.unmarshal ||
    decide (maxAttemptsOf record ≤ record.attempt + 1)

/-- `Nack` -/
def nack (jobID : String) (jobErr : Option JobError) (requeue : Bool) :
    M (Except Error NackResponse) := do
  match ← getJob jobID with
  | .error _ => return .error (newNotFoundError "Job" jobID)
  | .ok record =>
    if record.state ≠ .active then return .error (notActiveError "fail" jobID record.state)
    else
      let now ← timeNow
      if requeue then nackRequeue cfg now record jobID
      else if exhausts cfg record jobErr then nackDiscard cfg now record jobID jobErr
      else nackRetry cfg now record jobID jobErr

end OjsSqs
