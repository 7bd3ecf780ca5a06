import OjsSqs.World

/-! # The methods of the state store

`DynamoDBStore`, method by method, as programs of table requests. A method
that returns an error value returns an `Except`; its texts are the source's. -/
namespace OjsSqs
open Calls

/-- One request to DynamoDB. -/
def dynamo (c : DynamoCall) : M (Except AwsError c.Answer) := .perform (Call.dynamo c)

/-- `fmt.Errorf(context + ": %w", err)` for a failed request. -/
def failed (context : String) (e : AwsError) : Error := .wrap context (.aws e)

/-- A method that makes one request and returns only its error. -/
def request (context : String) (c : DynamoCall) : M (Except Error c.Answer) := do
  match ← dynamo c with
  | .error e => return .error (failed context e)
  | .ok a => return .ok a

def putJob (record : JobRecord) : M (Except Error Unit) :=
  request "failed to put job" (.putJobItem record)

def getJob (jobID : String) : M (Except Error JobRecord) := do
  match ← dynamo (.getJobItem jobID) with
  | .error e => return .error (failed "failed to get job" e)
  | .ok none => return .error (.plain ("job not found: " ++ jobID))
  | .ok (some record) => return .ok record

/-- `UpdateJobState` reads the job for its creation time before it writes. -/
def updateJobState (jobID : String) (newState : JobState) (updates : List JobUpdate) :
    M (Except Error Unit) := do
  match ← getJob jobID with
  | .error e => return .error (.wrap "failed to get job for GSI update" e)
  | .ok job =>
    let gsi1sk := gsi1skOf newState job.createdAt
    let gsi2pk := gsi2pkOf newState
    request "failed to update job state" (.updateJobItem jobID newState updates gsi1sk gsi2pk)

/-- A queue that exists already is not an error. -/
def registerQueue (name : String) : M (Except Error Unit) := do
  match ← dynamo (.putQueueItem name) with
  | .error .conditionalCheckFailed => return .ok ()
  | .error e => return .error (failed "failed to register queue" e)
  | .ok _ => return .ok ()

def isQueuePaused (name : String) : M (Except Error Bool) := do
  match ← dynamo (.getQueueItem name) with
  | .error e => return .error (failed "failed to get queue" e)
  | .ok none => return .error (.plain ("queue not found: " ++ name))
  | .ok (some item) => return .ok item.paused

def setQueuePaused (name : String) (paused : Bool) : M (Except Error Unit) :=
  request "failed to set queue paused" (.setPausedItem name paused)

def incrementQueueCompleted (name : String) : M (Except Error Unit) :=
  request "failed to increment queue completed" (.addCompleted name)

/-- `time.Now()` -/
def timeNow : M Time := .perform (Call.proc .now)

/-- The key's time to live is counted from the clock at the write. -/
def setUniqueKey (fingerprint jobID : String) (ttlSeconds : Int) : M (Except Error Unit) := do
  let now ← timeNow
  request "failed to set unique key" (.putUniqueItem fingerprint jobID (now.unix + ttlSeconds))

def getUniqueKey (fingerprint : String) : M (Except Error String) := do
  match ← dynamo (.getUniqueItem fingerprint) with
  | .error e => return .error (failed "failed to get unique key" e)
  | .ok none => return .error (.plain "unique key not found")
  | .ok (some item) => return .ok item.jobID

def putWorkflow (wf : WorkflowRecord) : M (Except Error Unit) :=
  request "failed to put workflow" (.putWorkflowItem wf)

def getWorkflowRecord (id : String) : M (Except Error WorkflowRecord) := do
  match ← dynamo (.getWorkflowItem id) with
  | .error e => return .error (failed "failed to get workflow" e)
  | .ok none => return .error (.plain ("workflow not found: " ++ id))
  | .ok (some wf) => return .ok wf

def updateWorkflow (id : String) (updates : List WorkflowUpdate) : M (Except Error Unit) :=
  if updates.isEmpty then return .ok ()
  else request "failed to update workflow" (.updateWorkflowItem id updates)

def addWorkflowJob (workflowID jobID : String) : M (Except Error Unit) :=
  request "failed to add workflow job" (.putWorkflowJobItem workflowID jobID)

def getWorkflowJobs (workflowID : String) : M (Except Error (List String)) :=
  request "failed to get workflow jobs" (.queryWorkflowJobs workflowID)

def setWorkflowResult (workflowID : String) (stepIdx : Int) (result : String) :
    M (Except Error Unit) :=
  request "failed to set workflow result" (.putWorkflowResultItem workflowID stepIdx result)

def getWorkflowResults (workflowID : String) : M (Except Error (List (Int × String))) :=
  request "failed to get workflow results" (.queryWorkflowResults workflowID)

def addToDeadLetter (jobID : String) : M (Except Error Unit) :=
  request "failed to add to dead letter" (.putDeadLetterItem jobID)

def removeFromDeadLetter (jobID : String) : M (Except Error Unit) :=
  request "failed to remove from dead letter" (.deleteDeadLetterItem jobID)

def isInDeadLetter (jobID : String) : M (Except Error Bool) :=
  request "failed to check dead letter" (.getDeadLetterItem jobID)

/-- How the source names the jobs of an index in its messages. -/
def DueIndex.word : DueIndex → String
  | .scheduled => "scheduled"
  | .retry => "retry"

/-- `AddScheduledJob` and `AddRetryJob` -/
def addDueJob (index : DueIndex) (jobID : String) (atMs : Int) : M (Except Error Unit) :=
  request ("failed to add " ++ index.word ++ " job") (.putDueItem index jobID atMs)

/-- `RemoveScheduledJob` and `RemoveRetryJob` -/
def removeDueJob (index : DueIndex) (jobID : String) : M (Except Error Unit) :=
  request ("failed to remove " ++ index.word ++ " job") (.deleteDueItem index jobID)

/-- `GetDueScheduledJobs` and `GetDueRetryJobs`: the index query, and a scan of
the table when the index is missing. -/
def getDueJobs (index : DueIndex) (nowMs : Int) : M (Except Error (List String)) := do
  match ← dynamo (.queryDue index nowMs) with
  | .ok jobIDs => return .ok jobIDs
  | .error .missingIndex =>
    match ← dynamo (.scanDue index nowMs) with
    | .ok jobIDs => return .ok jobIDs
    | .error e => return .error (failed ("failed to get due " ++ index.word ++ " jobs") e)
  | .error e => return .error (failed ("failed to query due " ++ index.word ++ " jobs") e)

def addScheduledJob := addDueJob .scheduled
def removeScheduledJob := removeDueJob .scheduled
def getDueScheduledJobs := getDueJobs .scheduled
def addRetryJob := addDueJob .retry
def removeRetryJob := removeDueJob .retry
def getDueRetryJobs := getDueJobs .retry

/-! ## Crons -/

def putCron (cron : CronRecord) : M (Except Error Unit) :=
  request "failed to put cron" (.putCronItem cron)

def getCron (name : String) : M (Except Error CronRecord) := do
  match ← dynamo (.getCronItem name) with
  | .error e => return .error (failed "failed to get cron" e)
  | .ok none => return .error (.plain ("cron not found: " ++ name))
  | .ok (some cron) => return .ok cron

/-- `DeleteCron` of the store. -/
def deleteCronRecord (name : String) : M (Except Error Unit) :=
  request "failed to delete cron" (.deleteCronItem name)

def listCrons : M (Except Error (List CronRecord)) :=
  request "failed to list crons" .scanCrons

/-- The lock's key is the name and the timestamp; it is kept for an hour. -/
def acquireCronLock (name : String) (timestamp : Int) : M (Except Error Bool) := do
  let now ← timeNow
  match ← dynamo (.putCronLockItem name timestamp (now.unix + 3600)) with
  | .error .conditionalCheckFailed => return .ok false
  | .error e => return .error (failed "failed to acquire cron lock" e)
  | .ok _ => return .ok true

/-- The empty string when no instance is stored. -/
def getCronInstance (name : String) : M (Except Error String) := do
  match ← dynamo (.getCronInstanceItem name) with
  | .error e => return .error (failed "failed to get cron instance" e)
  | .ok jobID => return .ok (jobID.getD "")

def setCronInstance (name jobID : String) : M (Except Error Unit) :=
  request "failed to set cron instance" (.putCronInstanceItem name jobID)

end OjsSqs
