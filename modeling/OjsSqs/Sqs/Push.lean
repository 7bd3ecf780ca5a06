import OjsSqs.Sqs.Queues
import Mathlib.Data.List.Sort

/-! # Cancel and Push

Cancel comes first because a Push with the conflict policy `replace` calls it. -/
namespace OjsSqs
open Calls

variable (cfg : Config)

/-- `Info` -/
def info (jobID : String) : M (Except Error Job) := do
  match ← getJob jobID with
  | .error _ => return .error (newNotFoundError "Job" jobID)
  | .ok record => return .ok (recordToJob record)

/-- Delete the message a record's receipt handle names. A queue that cannot be
resolved and a failed delete are only logged. -/
def dropMessage (record : JobRecord) : M Unit := do
  match record.sqsReceiptHandle with
  | none => return ()
  | some h =>
    match ← getOrCreateQueueURL cfg record.queue with
    | .error _ => return ()
    | .ok queueURL =>
      let _ ← sqs (.deleteMessage queueURL h)
      return ()

/-- `core.NowFormatted` -/
def nowFormatted : M String := do
  let now ← timeNow
  return cfg.formatTime now

/-- `Cancel`. The errors of its calls after the check are ignored. -/
def cancel (jobID : String) : M (Except Error Job) := do
  match ← getJob jobID with
  | .error _ => return .error (newNotFoundError "Job" jobID)
  | .ok record =>
    if isTerminalState record.state then
      return .error (newConflictError
        ("Cannot cancel job in terminal state '" ++ record.state.name ++ "'.")
        [("job_id", jobID), ("current_state", record.state.name)])
    else
      let now ← nowFormatted cfg
      dropMessage cfg record
      let _ ← removeScheduledJob jobID
      let _ ← removeRetryJob jobID
      let _ ← updateJobState jobID .cancelled
        [.state .cancelled, .cancelledAt now, .sqsReceiptHandle none]
      return .ok { recordToJob record with state := .cancelled, cancelledAt := now }

/-! ## Unique jobs -/

/-- The keys a fingerprint is made of: type and arguments by default, sorted. -/
def fingerprintKeys (policy : UniquePolicy) : List String :=
  (if policy.keys.isEmpty then ["type", "args"] else policy.keys).insertionSort (· ≤ ·)

/-- What one key writes into the hash. -/
def fingerprintPart (job : Job) : String → String
  | "type" => "type:" ++ job.type
  | "args" => "args:" ++ textOfRaw job.args
  | "queue" => "queue:" ++ job.queue
  | _ => ""

/-- `computeFingerprint` -/
def computeFingerprint (policy : UniquePolicy) (job : Job) : String :=
  cfg.sha256Hex (String.join ((fingerprintKeys policy).map (fingerprintPart job)))

/-- The job after `computeFingerprint`: its keys have been sorted in place. -/
def sortUniqueKeys (policy : UniquePolicy) (job : Job) : Job :=
  { job with unique := some { policy with keys := policy.keys.insertionSort (· ≤ ·) } }

/-- The time to live of the key in seconds: the period, or an hour. -/
def uniqueTTL (policy : UniquePolicy) : Int :=
  if policy.period = "" then 3600
  else match cfg.parseISO8601Duration policy.period with
    | some d => Time.seconds d
    | none => 3600

/-- The holder's state makes the new job a duplicate. -/
def isRelevant (policy : UniquePolicy) (existing : JobState) : Bool :=
  if policy.states.isEmpty then !isTerminalState existing
  else policy.states.any (· = existing.name)

/-- The conflict policy; `reject` when none is given. -/
def conflictOf (policy : UniquePolicy) : String :=
  if policy.onConflict = "" then "reject" else policy.onConflict

def duplicateError (details : List (String × String)) : Error :=
  .ojs .duplicate "A job with the same unique key already exists." details

/-- Push has found the key's holder: reject, give the holder back, cancel it,
or go on. -/
def resolveConflict (policy : UniquePolicy) (fingerprint existingID : String) :
    M (Except Error (Option Job)) := do
  match ← getJob existingID with
  | .error _ => return .ok none
  | .ok existingRecord =>
    if isRelevant policy existingRecord.state then
      if conflictOf policy = "reject" then
        return .error (duplicateError
          [("existing_job_id", existingID), ("unique_key", fingerprint)])
      else if conflictOf policy = "ignore" then
        return .ok (some { recordToJob existingRecord with isExisting := true })
      else if conflictOf policy = "replace" then
        match ← cancel cfg existingID with
        | .error e =>
          if e.code? = some .notFound then return .ok none
          else return .error (.wrap "cancel existing unique job" e)
        | .ok _ => return .ok none
      else return .ok none
    else return .ok none

/-- The check for the key's holder: `none` lets the Push go on. -/
def findExisting (policy : UniquePolicy) (fingerprint : String) :
    M (Except Error (Option Job)) := do
  match ← getUniqueKey fingerprint with
  | .error _ => return .ok none
  | .ok existingID =>
    if existingID = "" then return .ok none
    else resolveConflict cfg policy fingerprint existingID

/-- The unique key is taken for the new job. -/
def claimUniqueKey (policy : UniquePolicy) (fingerprint jobID : String) :
    M (Except Error Unit) := do
  match ← setUniqueKey fingerprint jobID (uniqueTTL cfg policy) with
  | .error e =>
    if e.isConditionalCheckFailed then
      return .error (duplicateError [("unique_key", fingerprint)])
    else return .error (.wrap "set unique key" e)
  | .ok _ => return .ok ()

/-- The unique part of Push: an error, an existing job, or the key is taken. -/
def pushUnique (policy : UniquePolicy) (job : Job) : M (Except Error (Option Job)) := do
  let fingerprint := computeFingerprint cfg policy job
  match ← findExisting cfg policy fingerprint with
  | .error e => return .error e
  | .ok (some existing) => return .ok (some existing)
  | .ok none =>
    match ← claimUniqueKey cfg policy fingerprint job.id with
    | .error e => return .error e
    | .ok _ => return .ok none

/-! ## Push -/

/-- A job for a later instant: the record, the marker, the queue. -/
def pushScheduled (now scheduledTime : Time) (job : Job) : M (Except Error Job) := do
  let job := { job with state := .scheduled, enqueuedAt := cfg.formatTime now }
  match ← putJob (jobToRecord job) with
  | .error e => return .error (.wrap "store scheduled job" e)
  | .ok _ =>
    match ← addScheduledJob job.id scheduledTime.unixMilli with
    | .error e => return .error (.wrap "add to scheduled set" e)
    | .ok _ =>
      match ← registerQueue job.queue with
      | .error e => return .error (.wrap "register queue" e)
      | .ok _ => return .ok job

/-- A job for now: the record, the queue, the message. -/
def pushAvailable (now : Time) (job : Job) : M (Except Error Job) := do
  let job := { job with state := .available, enqueuedAt := cfg.formatTime now }
  match ← putJob (jobToRecord job) with
  | .error e => return .error (.wrap "store job" e)
  | .ok _ =>
    match ← registerQueue job.queue with
    | .error e => return .error (.wrap "register queue" e)
    | .ok _ =>
      match ← sendToSQS cfg job with
      | .error e => return .error (.wrap "send to SQS" e)
      | .ok _ => return .ok job

/-- The instant a job is scheduled for, when it lies in the future. -/
def futureInstant (now : Time) (job : Job) : Option Time :=
  if job.scheduledAt = "" then none
  else match cfg.parseRFC3339 job.scheduledAt with
    | some t => if now < t then some t else none
    | none => none

/-- The initial state of a job that is not a duplicate. -/
def pushNew (now : Time) (job : Job) : M (Except Error Job) :=
  match futureInstant cfg now job with
  | some scheduledTime => pushScheduled cfg now scheduledTime job
  | none => pushAvailable cfg now job

/-- The identifier of a pushed job: the client's, or a new one. -/
def assignID (job : Job) : M String :=
  if job.id = "" then proc .newUUIDv7 else return job.id

/-- `Push` -/
def push (job : Job) : M (Except Error Job) := do
  let now ← timeNow
  let id ← assignID job
  let job := { job with id := id, createdAt := cfg.formatTime now, attempt := 0 }
  match job.unique with
  | none => pushNew cfg now job
  | some policy =>
    match ← pushUnique cfg policy job with
    | .error e => return .error e
    | .ok (some existing) => return .ok existing
    | .ok none => pushNew cfg now (sortUniqueKeys policy job)

/-! ## PushBatch -/

/-- The first job that is not valid, checked before anything is written. -/
def validateBatch : List Job → Option Error
  | [] => none
  | job :: jobs => match cfg.validateEnqueueRequest job.type job.args with
    | some e => some e
    | none => validateBatch jobs

/-- Store the jobs of a batch one after the other, all as available. -/
def storeBatch (now : Time) : List Job → List Job → M (Except Error (List Job))
  | [], done => return .ok done
  | job :: jobs, done => do
    let id ← assignID job
    let job := { job with
      id := id
      state := .available
      attempt := 0
      createdAt := cfg.formatTime now
      enqueuedAt := cfg.formatTime now }
    match ← putJob (jobToRecord job) with
    | .error e => return .error (.wrap ("store batch job " ++ job.id) e)
    | .ok _ =>
      match ← registerQueue job.queue with
      | .error e => return .error (.wrap ("register queue " ++ job.queue) e)
      | .ok _ => storeBatch now jobs (done ++ [job])

/-- `PushBatch` -/
def pushBatch (jobs : List Job) : M (Except Error (List Job)) := do
  if jobs.isEmpty then return .ok []
  else
    match validateBatch cfg jobs with
    | some e => return .error e
    | none =>
      let now ← timeNow
      match ← storeBatch cfg now jobs [] with
      | .error e => return .error e
      | .ok stored =>
        match ← sendBatchToSQS cfg stored with
        | .error e => return .error (.wrap "send batch to SQS" e)
        | .ok _ => return .ok stored

end OjsSqs
