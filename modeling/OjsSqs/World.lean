import OjsSqs.Calls.Pool
import OjsSqs.Sqs.Service
import Mathlib.Data.List.AList

/-! # The world of the backend and its calls

The state store is a set of tables, one for each kind of item; together with
the SQS service, the clock and the memory of the process they are the world.
A `Call` is one request to DynamoDB or to SQS, or one step of the process
itself. `act` says what a call does when the environment makes a given
choice: the call succeeds, or fails and leaves the world as it was, or it is
one of the calls whose answer the service is free to choose. -/
namespace OjsSqs
open Calls

abbrev Table (V : Type) := AList fun _ : String => V

/-- A queue's metadata item. It has no name when a pause created it. -/
structure QueueItem where
  name : Option String := none
  paused : Bool := false
  completed : Nat := 0
deriving DecidableEq, Repr

/-- A unique key's item; `ttl` in seconds since the epoch. -/
structure UniqueItem where
  jobID : String
  ttl : Int
deriving DecidableEq, Repr

/-- The two indexes of jobs that wait for an instant. -/
inductive DueIndex where
  | scheduled | retry
deriving DecidableEq, Repr

structure Store where
  jobs : Table JobRecord := ∅
  queues : Table QueueItem := ∅
  uniqueKeys : Table UniqueItem := ∅
  workflows : Table WorkflowRecord := ∅
  workflowJobs : List (String × String) := []
  workflowResults : AList (fun _ : String × Int => String) := ∅
  deadLetters : Table Unit := ∅
  /-- The markers of an index: the job and the instant, in milliseconds. -/
  due : DueIndex → Table Int := fun _ => ∅
  crons : Table CronRecord := ∅
  /-- The locks of cron runs: the name and the timestamp, with the lock's `ttl`. -/
  cronLocks : AList (fun _ : String × Int => Int) := ∅
  /-- The job of each cron's latest run. -/
  cronInstances : Table String := ∅

structure World where
  clock : Time := 0
  store : Store := {}
  sqs : SqsState := {}
  /-- The cache `queueURLs` of the backend. -/
  queueURLs : Table String := ∅
  /-- Goroutines started and not yet run: `ensureDLQ` of a queue and its URL. -/
  background : List (String × String) := []

/-! ## Calls -/

inductive DynamoCall where
  | getJobItem (jobID : String)
  | putJobItem (record : JobRecord)
  | updateJobItem (jobID : String) (newState : JobState) (updates : List JobUpdate)
      (gsi1sk gsi2pk : String)
  | putQueueItem (name : String)
  | getQueueItem (name : String)
  | setPausedItem (name : String) (paused : Bool)
  | addCompleted (name : String)
  | putUniqueItem (fingerprint jobID : String) (ttl : Int)
  | getUniqueItem (fingerprint : String)
  | putWorkflowItem (wf : WorkflowRecord)
  | getWorkflowItem (id : String)
  | updateWorkflowItem (id : String) (updates : List WorkflowUpdate)
  | putWorkflowJobItem (workflowID jobID : String)
  | queryWorkflowJobs (workflowID : String)
  | putWorkflowResultItem (workflowID : String) (stepIdx : Int) (result : String)
  | queryWorkflowResults (workflowID : String)
  | putDeadLetterItem (jobID : String)
  | deleteDeadLetterItem (jobID : String)
  | getDeadLetterItem (jobID : String)
  | putDueItem (index : DueIndex) (jobID : String) (atMs : Int)
  | queryDue (index : DueIndex) (nowMs : Int)
  | scanDue (index : DueIndex) (nowMs : Int)
  | deleteDueItem (index : DueIndex) (jobID : String)
  | putCronItem (cron : CronRecord)
  | getCronItem (name : String)
  | deleteCronItem (name : String)
  | scanCrons
  | putCronLockItem (name : String) (timestamp ttl : Int)
  | getCronInstanceItem (name : String)
  | putCronInstanceItem (name jobID : String)
deriving DecidableEq

abbrev DynamoCall.Answer : DynamoCall → Type
  | .getJobItem _ => Option JobRecord
  | .getQueueItem _ => Option QueueItem
  | .getUniqueItem _ => Option UniqueItem
  | .getWorkflowItem _ => Option WorkflowRecord
  | .queryWorkflowJobs _ => List String
  | .queryWorkflowResults _ => List (Int × String)
  | .getDeadLetterItem _ => Bool
  | .queryDue _ _ => List String
  | .scanDue _ _ => List String
  | .getCronItem _ => Option CronRecord
  | .scanCrons => List CronRecord
  | .getCronInstanceItem _ => Option String
  | _ => Unit

inductive SqsCall where
  | createQueue (name : String)
  | sendMessage (url : String) (m : OutMessage)
  | sendMessageBatch (url : String) (entries : List OutMessage)
  | receiveMessage (url : String) (max : Nat) (visibilitySec : Int)
  | deleteMessage (url : String) (receipt : Receipt)
  | changeMessageVisibility (url : String) (receipt : Receipt) (visibilitySec : Int)
  | getQueueArn (url : String)
  | setRedrivePolicy (url : String) (arn : String) (maxReceiveCount : Nat)
deriving DecidableEq

abbrev SqsCall.Answer : SqsCall → Type
  | .createQueue _ => String
  | .sendMessage _ _ => MessageId
  | .sendMessageBatch _ _ => List String
  | .receiveMessage _ _ _ => List Delivery
  | .getQueueArn _ => Option String
  | _ => Unit

/-- Steps of the process itself; they do not fail. -/
inductive ProcCall where
  | now
  | newUUIDv7
  | lookupURL (queue : String)
  | cacheURL (queue url : String)
  | goEnsureDLQ (queue url : String)
  | rangeMap (keys : List String)
deriving DecidableEq

abbrev ProcCall.Answer : ProcCall → Type
  | .now => Time
  | .newUUIDv7 => String
  | .lookupURL _ => Option String
  | .rangeMap _ => List String
  | _ => Unit

inductive Call where
  | dynamo (c : DynamoCall)
  | sqs (c : SqsCall)
  | proc (c : ProcCall)
deriving DecidableEq

/-- What a call answers: an AWS call may report an error. -/
abbrev Answer : Call → Type
  | .dynamo c => Except AwsError c.Answer
  | .sqs c => Except AwsError c.Answer
  | .proc c => c.Answer

/-- The programs of the backend. -/
abbrev M := Prog Call Answer

/-! ## What the environment chooses -/

inductive Choice where
  /-- the call succeeds -/
  | ok
  /-- the AWS call fails and has no effect -/
  | fault (message : String)
  /-- the table does not have the index of the query -/
  | noIndex
  /-- a query returns this page of the matching items, a map is iterated in
  this order -/
  | page (ids : List String)
  /-- a query of a workflow's items stops after its first page, which has the
  items at these places -/
  | firstPage (places : List Nat)
  /-- `ReceiveMessage` picks these messages -/
  | deliver (ids : List MessageId)
  /-- `SendMessageBatch` refuses the entries at these places -/
  | refuse (places : List Nat)
  /-- the clock shows this instant -/
  | tick (t : Time)
  /-- the new identifier -/
  | uuid (id : String)
deriving DecidableEq

/-- The call falls short: it reports an error, or it answers a part of a list
that its caller takes for the whole. -/
def Choice.isFault : Choice → Bool
  | .fault _ | .noIndex | .refuse _ | .firstPage _ => true
  | _ => false

namespace Store

/-- The markers of an index that are due. -/
def isDue (index : DueIndex) (nowMs : Int) (jobID : String) (s : Store) : Bool :=
  match (s.due index).lookup jobID with
  | some at' => decide (at' ≤ nowMs)
  | none => false

def setDue (index : DueIndex) (t : Table Int) (s : Store) : Store :=
  { s with due := Function.update s.due index t }

/-- The items of one workflow's jobs. -/
def jobsOf (workflowID : String) (s : Store) : List String :=
  (s.workflowJobs.filter (·.1 = workflowID)).map (·.2)

/-- The items of one workflow's results. -/
def resultsOf (workflowID : String) (s : Store) : List (Int × String) :=
  s.workflowResults.entries.filterMap fun e =>
    if e.1.1 = workflowID then some (e.1.2, e.2) else none

/-- The queue item, or the one an update of an absent item creates. -/
def queueItem (name : String) (s : Store) : QueueItem := (s.queues.lookup name).getD {}

/-- A DynamoDB request that succeeds, apart from the queries. A condition
that does not hold is an answer, not a failure. -/
def run : (c : DynamoCall) → Store → Except AwsError c.Answer × Store
  | .getJobItem id, s => (.ok (s.jobs.lookup id), s)
  | .putJobItem r, s => (.ok (), { s with jobs := s.jobs.insert r.id r })
  | .updateJobItem id st us sk pk, s =>
    -- `UpdateItem` creates an item that does not exist
    let r := (s.jobs.lookup id).getD { id := id, state := st }
    (.ok (), { s with jobs := s.jobs.insert id (r.update st us sk pk) })
  | .putQueueItem name, s => match s.queues.lookup name with
    | some _ => (.error .conditionalCheckFailed, s)
    | none => (.ok (), { s with queues := s.queues.insert name { name := some name } })
  | .getQueueItem name, s => (.ok (s.queues.lookup name), s)
  | .setPausedItem name b, s =>
    (.ok (), { s with queues := s.queues.insert name { s.queueItem name with paused := b } })
  | .addCompleted name, s =>
    let item := s.queueItem name
    (.ok (), { s with queues := s.queues.insert name { item with completed := item.completed + 1 } })
  | .putUniqueItem fp id ttl, s => match s.uniqueKeys.lookup fp with
    | some _ => (.error .conditionalCheckFailed, s)
    | none => (.ok (), { s with uniqueKeys := s.uniqueKeys.insert fp ⟨id, ttl⟩ })
  | .getUniqueItem fp, s => (.ok (s.uniqueKeys.lookup fp), s)
  | .putWorkflowItem wf, s => (.ok (), { s with workflows := s.workflows.insert wf.id wf })
  | .getWorkflowItem id, s => (.ok (s.workflows.lookup id), s)
  | .updateWorkflowItem id us, s => match s.workflows.lookup id with
    -- no caller updates a workflow it has not read, and none is ever deleted
    | none => (.ok (), s)
    | some wf => (.ok (), { s with workflows := s.workflows.insert id (wf.update us) })
  | .putWorkflowJobItem wf id, s =>
    (.ok (), { s with workflowJobs := s.workflowJobs.filter (· ≠ (wf, id)) ++ [(wf, id)] })
  | .queryWorkflowJobs wf, s => (.ok (s.jobsOf wf), s)
  | .putWorkflowResultItem wf i res, s =>
    (.ok (), { s with workflowResults := s.workflowResults.insert (wf, i) res })
  | .queryWorkflowResults wf, s => (.ok (s.resultsOf wf), s)
  | .putDeadLetterItem id, s => (.ok (), { s with deadLetters := s.deadLetters.insert id () })
  | .deleteDeadLetterItem id, s => (.ok (), { s with deadLetters := s.deadLetters.erase id })
  | .getDeadLetterItem id, s => (.ok (s.deadLetters.lookup id).isSome, s)
  | .putDueItem i id at', s => (.ok (), s.setDue i ((s.due i).insert id at'))
  | .deleteDueItem i id, s => (.ok (), s.setDue i ((s.due i).erase id))
  | .queryDue _ _, s => (.ok [], s)
  | .scanDue _ _, s => (.ok [], s)
  | .putCronItem r, s => (.ok (), { s with crons := s.crons.insert r.name r })
  | .getCronItem name, s => (.ok (s.crons.lookup name), s)
  | .deleteCronItem name, s => (.ok (), { s with crons := s.crons.erase name })
  | .scanCrons, s => (.ok [], s)
  | .putCronLockItem name ts ttl, s => match s.cronLocks.lookup (name, ts) with
    | some _ => (.error .conditionalCheckFailed, s)
    | none => (.ok (), { s with cronLocks := s.cronLocks.insert (name, ts) ttl })
  | .getCronInstanceItem name, s => (.ok (s.cronInstances.lookup name), s)
  | .putCronInstanceItem name id, s =>
    (.ok (), { s with cronInstances := s.cronInstances.insert name id })

/-- A page of a scan for due jobs: some of them, each once, in any order. -/
def isDuePage (index : DueIndex) (nowMs : Int) (ids : List String) (s : Store) : Bool :=
  decide ids.Nodup && ids.all fun id => s.isDue index nowMs id

/-- The instant a job waits for. -/
def dueAt (index : DueIndex) (jobID : String) (s : Store) : Int := ((s.due index).lookup jobID).getD 0

/-- A page of the index is in the order of the instants, and no due job that is
not on it is earlier than one that is. -/
def inDueOrder (index : DueIndex) (nowMs : Int) (ids : List String) (s : Store) : Bool :=
  decide (ids.Pairwise fun a b => s.dueAt index a ≤ s.dueAt index b) &&
    (s.due index).keys.all fun id => !s.isDue index nowMs id || decide (id ∈ ids) ||
      ids.all fun a => decide (s.dueAt index a ≤ s.dueAt index id)

/-- The items of a list at some places. -/
def itemsAt {α : Type} (places : List Nat) (items : List α) : List α :=
  places.filterMap fun i => items[i]?

/-- A page of the scan for crons: stored ones, each once, in any order. -/
def isCronPage (names : List String) (s : Store) : Bool :=
  decide names.Nodup && names.all fun name => (s.crons.lookup name).isSome

/-- What a DynamoDB request does when the service makes the choice. -/
def act : Choice → (c : DynamoCall) → Store → Option (Except AwsError c.Answer × Store)
  | .fault message, _, s => some (.error (.other message), s)
  | .noIndex, .queryDue _ _, s => some (.error .missingIndex, s)
  | .page ids, .queryDue i now, s =>
    if s.isDuePage i now ids && s.inDueOrder i now ids then some (.ok ids, s) else none
  | .page ids, .scanDue i now, s => if s.isDuePage i now ids then some (.ok ids, s) else none
  | .page names, .scanCrons, s =>
    if s.isCronPage names then some (.ok (names.filterMap s.crons.lookup), s) else none
  | .firstPage places, .queryWorkflowJobs wf, s =>
    if places.Nodup then some (.ok (itemsAt places (s.jobsOf wf)), s) else none
  | .firstPage places, .queryWorkflowResults wf, s =>
    if places.Nodup then some (.ok (itemsAt places (s.resultsOf wf)), s) else none
  | .ok, .queryDue _ _, _ => none
  | .ok, .scanDue _ _, _ => none
  | .ok, .scanCrons, _ => none
  | .ok, c, s => some (s.run c)
  | _, _, _ => none

end Store

namespace SqsState

/-- The entries `SendMessageBatch` accepts, and the messages of the others. -/
def acceptedEntries (places : List Nat) (entries : List OutMessage) : List OutMessage :=
  (entries.zipIdx.filter fun e => e.2 ∉ places).map (·.1)

/-- An SQS request when the service makes the choice. The URL of a queue and
its ARN stand for its name. -/
def act : Choice → (c : SqsCall) → SqsState → Option (Except AwsError c.Answer × SqsState)
  | .fault message, _, q => some (.error (.other message), q)
  | .deliver ids, .receiveMessage url max vis, q =>
    if q.mayPick url max ids then
      let out := q.receive vis ids
      some (.ok out.1, out.2)
    else none
  | .refuse places, .sendMessageBatch url entries, q =>
    some (.ok (places.map toString), q.sendBatch url (acceptedEntries places entries))
  | .ok, .createQueue name, q => some (.ok name, q.createQueue name)
  | .ok, .sendMessage url m, q => some (.ok q.nextMessage, q.send url m)
  | .ok, .sendMessageBatch url entries, q => some (.ok [], q.sendBatch url entries)
  | .ok, .deleteMessage url h, q => some (.ok (), q.delete url h)
  | .ok, .changeMessageVisibility url h vis, q => some (.ok (), q.changeVisibility url h vis)
  | .ok, .getQueueArn url, q => some (.ok (some url), q)
  | .ok, .setRedrivePolicy url _ n, q => some (.ok (), q.setRedrive url n)
  | _, _, _ => none

end SqsState

namespace World

/-- A step of the process. The clock does not go back, a new identifier is not
empty and not the identifier of a stored job, and a map is iterated in any
order of its keys. -/
def actProc : Choice → (c : ProcCall) → World → Option (c.Answer × World)
  | .tick t, .now, w => if w.clock ≤ t then some (t, { w with clock := t }) else none
  | .uuid id, .newUUIDv7, w =>
    if id ≠ "" ∧ w.store.jobs.lookup id = none then some (id, w) else none
  | .ok, .lookupURL queue, w => some (w.queueURLs.lookup queue, w)
  | .ok, .cacheURL queue url, w =>
    some ((), { w with queueURLs := w.queueURLs.insert queue url })
  | .ok, .goEnsureDLQ queue url, w =>
    some ((), { w with background := w.background ++ [(queue, url)] })
  | .page order, .rangeMap keys, w => if order.Perm keys then some (order, w) else none
  | _, _, _ => none

/-- What a call does when the environment makes the choice. -/
def act (ch : Choice) : (c : Call) → World → Option (Answer c × World)
  | .dynamo c, w => (w.store.act ch c).map fun (r, s) => (r, { w with store := s })
  | .sqs c, w => (w.sqs.act ch c).map fun (r, q) => (r, { w with sqs := q })
  | .proc c, w => actProc ch c w

end World
end OjsSqs
