import OjsSqs.State.Store
import Mathlib.Data.List.Dedup

/-! # Queues and sending

The SQS names of a queue, the cached queue URL, and the way a job becomes a
message: `EncodeJob` with its size limit, `sendToSQS` and `sendBatchToSQS`. -/
namespace OjsSqs
open Calls

variable (cfg : Config)

/-- One request to SQS. -/
def sqs (c : SqsCall) : M (Except AwsError c.Answer) := .perform (Call.sqs c)

/-- One step of the process. -/
def proc (c : ProcCall) : M c.Answer := .perform (Call.proc c)

/-- `strings.ReplaceAll(name, ".", "-")` -/
def sanitizeQueueName (name : String) : String :=
  .ofList (name.toList.map fun c => if c = '.' then '-' else c)

def sqsQueueName (ojsQueue : String) : String :=
  let name := cfg.queuePrefix ++ "-" ++ sanitizeQueueName ojsQueue
  if cfg.useFIFO then name ++ ".fifo" else name

def sqsDLQName (ojsQueue : String) : String :=
  let name := cfg.queuePrefix ++ "-" ++ sanitizeQueueName ojsQueue ++ "-dlq"
  if cfg.useFIFO then name ++ ".fifo" else name

/-- `getOrCreateQueueURL`: from the cache, or by creating the queue, which
starts `ensureDLQ` in the background. -/
def getOrCreateQueueURL (ojsQueue : String) : M (Except Error String) := do
  match ← proc (.lookupURL ojsQueue) with
  | some url => return .ok url
  | none =>
    let sqsName := sqsQueueName cfg ojsQueue
    match ← sqs (.createQueue sqsName) with
    | .error e => return .error (failed ("create SQS queue " ++ sqsName) e)
    | .ok url =>
      let _ ← proc (.goEnsureDLQ ojsQueue url)
      let _ ← proc (.cacheURL ojsQueue url)
      return .ok url

/-- `ensureDLQ`: three receives, then the dead letter queue. -/
def ensureDLQ (ojsQueue mainQueueURL : String) : M Unit := do
  match ← sqs (.createQueue (sqsDLQName cfg ojsQueue)) with
  | .error _ => return ()
  | .ok dlqURL =>
    match ← sqs (.getQueueArn dlqURL) with
    | .error _ => return ()
    | .ok none => return ()
    | .ok (some dlqArn) =>
      let _ ← sqs (.setRedrivePolicy mainQueueURL dlqArn 3)
      return ()

/-- `MaxSQSMessageSize`: 256 KB. -/
def maxSQSMessageSize : Nat := 256 * 1024

/-- `EncodeJob`: the body of the message, unless it is too large. -/
def encodeJob (job : Job) : Except Error Job :=
  match cfg.marshalSize job with
  | none => .error (.wrap "marshal job" (.plain "json"))
  | some size =>
    if maxSQSMessageSize < size then
      .error (.ojs .invalidRequest
        ("Job payload size (" ++ toString size ++ " bytes) exceeds SQS maximum of " ++
          toString maxSQSMessageSize ++ " bytes. Consider using S3 for large payloads.")
        [("payload_size", toString size), ("max_size", toString maxSQSMessageSize),
          ("job_id", job.id)])
    else .ok job

/-- The job fits into a message. -/
def encodes (job : Job) : Bool := (encodeJob cfg job).toOption.isSome

variable {cfg} in
theorem encodeJob_body {job body : Job} (h : encodeJob cfg job = .ok body) : body = job := by
  rw [encodeJob] at h
  split at h
  · cases h
  · split at h
    · cases h
    · cases h
      rfl

/-- The message of a job. On a FIFO queue the group is the queue and the
deduplication id the job's id. -/
def outMessage (job body : Job) : OutMessage where
  body := body
  groupID := if cfg.useFIFO then some job.queue else none
  deduplicationID := if cfg.useFIFO then some job.id else none

/-- `sendToSQS` -/
def sendToSQS (job : Job) : M (Except Error MessageId) := do
  match ← getOrCreateQueueURL cfg job.queue with
  | .error e => return .error e
  | .ok queueURL =>
    match encodeJob cfg job with
    | .error e => return .error e
    | .ok body =>
      match ← sqs (.sendMessage queueURL (outMessage cfg job body)) with
      | .error e => return .error (failed "SQS SendMessage" e)
      | .ok messageID => return .ok messageID

/-- The entries of one chunk: the first job that does not fit ends it. -/
def encodeChunk : List Job → Except Error (List OutMessage)
  | [] => .ok []
  | job :: jobs => match encodeJob cfg job with
    | .error e => .error e
    | .ok body => match encodeChunk jobs with
      | .error e => .error e
      | .ok entries => .ok (outMessage cfg job body :: entries)

/-- `for i := 0; i < len(queueJobs); i += 10`: chunks of ten, the SQS batch
limit. -/
def chunksOf (jobs : List Job) : List (List Job) :=
  (List.range ((jobs.length + 9) / 10)).map fun i => (jobs.drop (10 * i)).take 10

/-- The chunks of one queue, one request each. -/
def sendChunks (queueURL : String) : List (List Job) → M (Except Error Unit)
  | [] => return .ok ()
  | chunk :: chunks => do
    match encodeChunk cfg chunk with
    | .error e => return .error e
    | .ok entries =>
      match ← sqs (.sendMessageBatch queueURL entries) with
      | .error e => return .error (failed "SQS SendMessageBatch" e)
      | .ok (first :: rest) =>
        return .error (.plain ("SQS SendMessageBatch: " ++ toString (rest.length + 1) ++
          " messages failed, first error: " ++ first))
      | .ok [] => sendChunks queueURL chunks

/-- One queue of the batch after the other, in the order of the map. -/
def sendGroups (jobs : List Job) : List String → M (Except Error Unit)
  | [] => return .ok ()
  | queue :: queues => do
    match ← getOrCreateQueueURL cfg queue with
    | .error e => return .error e
    | .ok queueURL =>
      match ← sendChunks cfg queueURL (chunksOf (jobs.filter (·.queue = queue))) with
      | .error e => return .error e
      | .ok _ => sendGroups jobs queues

/-- `sendBatchToSQS`: the keys of `byQueue` are the queues of the jobs. -/
def sendBatchToSQS (jobs : List Job) : M (Except Error Unit) := do
  let queues ← proc (.rangeMap (jobs.map (·.queue)).dedup)
  sendGroups cfg jobs queues

end OjsSqs
