import OjsSqs.Sqs.Jobs

/-! # The promoters and the dead letter set

`PromoteScheduled` and `PromoteRetries` are the same loop over the two due
indexes; only the index and the texts differ. -/
namespace OjsSqs
open Calls

variable (cfg : Config)

/-- The words of the two loops' messages. -/
def DueIndex.marker : DueIndex → String
  | .scheduled => "scheduled job"
  | .retry => "retry marker"

/-- The job as it is sent: available, enqueued now. -/
def promotedJob (now : Time) (record : JobRecord) : Job :=
  { recordToJob record with state := .available, enqueuedAt := cfg.formatTime now }

def promoteUpdates (now : Time) : List JobUpdate :=
  [.state .available, .enqueuedAt (cfg.formatTime now)]

/-- One due job: its marker is removed, its record made available, its message
sent. The error of the step that failed, if one did. -/
def promoteOne (index : DueIndex) (jobID : String) : M (Option Error) := do
  match ← getJob jobID with
  | .error e => return some (.wrap ("load " ++ index.word ++ " job " ++ jobID) e)
  | .ok record =>
    match ← removeDueJob index jobID with
    | .error e => return some (.wrap ("remove " ++ index.marker ++ " " ++ jobID) e)
    | .ok _ =>
      let now ← timeNow
      match ← updateJobState jobID .available (promoteUpdates cfg now) with
      | .error e => return some (.wrap ("update " ++ index.word ++ " job state " ++ jobID) e)
      | .ok _ =>
        match ← sendToSQS cfg (promotedJob cfg now record) with
        | .error e =>
          return some (.wrap ("send promoted " ++ index.word ++ " job " ++ jobID) e)
        | .ok _ => return none

/-- The loop goes on after an error and keeps the first one. -/
def promoteAll (index : DueIndex) : List String → Option Error → M (Option Error)
  | [], firstErr => return firstErr
  | jobID :: jobIDs, firstErr => do
    let err ← promoteOne cfg index jobID
    promoteAll index jobIDs (firstErr.or err)

/-- The body of both promoters. -/
def promote (index : DueIndex) : M (Option Error) := do
  let now ← timeNow
  match ← getDueJobs index now.unixMilli with
  | .error e => return some e
  | .ok jobIDs => promoteAll cfg index jobIDs none

/-- `PromoteScheduled` -/
def promoteScheduled : M (Option Error) := promote cfg .scheduled

/-- `PromoteRetries` -/
def promoteRetries : M (Option Error) := promote cfg .retry

/-! ## The dead letter set -/

/-- The job as a retry from the dead letter set sends it. It is made from the
record that was read, so its errors are still there. -/
def deadLetterJob (now : Time) (record : JobRecord) : Job :=
  { recordToJob record with state := .available, attempt := 0, enqueuedAt := cfg.formatTime now }

def deadLetterUpdates (now : Time) : List JobUpdate :=
  [.state .available, .attempt 0, .enqueuedAt (cfg.formatTime now), .errorData none,
    .errorHistory .empty, .completedAt "", .retryDelayMs none]

/-- `RetryDeadLetter`. The errors of its writes and of the send are ignored. -/
def retryDeadLetter (jobID : String) : M (Except Error Job) := do
  let inDLQ ← isInDeadLetter jobID
  if inDLQ.toOption.getD false then
    let now ← timeNow
    match ← getJob jobID with
    | .error _ => return .error (newNotFoundError "Job" jobID)
    | .ok record =>
      let _ ← removeFromDeadLetter jobID
      let _ ← updateJobState jobID .available (deadLetterUpdates cfg now)
      let _ ← sendToSQS cfg (deadLetterJob cfg now record)
      info jobID
  else return .error (newNotFoundError "Dead letter job" jobID)

/-- `DeleteDeadLetter` -/
def deleteDeadLetter (jobID : String) : M (Except Error Unit) := do
  let inDLQ ← isInDeadLetter jobID
  if inDLQ.toOption.getD false then removeFromDeadLetter jobID
  else return .error (newNotFoundError "Dead letter job" jobID)

end OjsSqs
