import OjsSqs.Calls.Paging
import OjsSqs.Sqs.Jobs
import Mathlib.Data.String.Basic

/-! # The reads of whole parts of the table

All items are in one table. A scan goes through the table, a query through one
partition of an index in the order of the sort key, and both are answered in
pages. Nine methods ask for one page; `ListAllJobs` follows the keys, but hands
a filter for the state alone to `ListJobsByState`. -/
namespace OjsSqs
open Calls

/-- An item of the table, with what these reads look at. -/
inductive TableItem where
  | job (record : JobRecord)
  | queue (item : QueueItem)
  | cron (record : CronRecord)
  | workflowJob (workflowID jobID : String)
  | workflowResult (workflowID : String) (stepIdx : Int) (result : String)
  | due (index : DueIndex) (jobID : String) (atMs : Int)
  | other
deriving DecidableEq, Repr

namespace TableItem

def record? : TableItem → Option JobRecord
  | .job r => some r
  | _ => none

def queue? : TableItem → Option QueueItem
  | .queue item => some item
  | _ => none

/-- The name of a queue; an item without one is skipped. -/
def queueName? : TableItem → Option String
  | .queue item => item.name
  | _ => none

def cron? : TableItem → Option CronRecord
  | .cron r => some r
  | _ => none

def workflowJob? (workflowID : String) : TableItem → Option String
  | .workflowJob wf jobID => if wf = workflowID then some jobID else none
  | _ => none

def workflowResult? (workflowID : String) : TableItem → Option (Int × String)
  | .workflowResult wf stepIdx result => if wf = workflowID then some (stepIdx, result) else none
  | _ => none

/-- A marker of the index that is due. -/
def due? (index : DueIndex) (nowMs : Int) : TableItem → Option (String × Int)
  | .due i jobID atMs => if i = index ∧ atMs ≤ nowMs then some (jobID, atMs) else none
  | _ => none

end TableItem

/-! ## Indexes -/

def jobRecords (table : List TableItem) : List JobRecord := table.filterMap TableItem.record?

/-- GSI1: the jobs of a queue whose sort key begins with a state. -/
def gsi1 (pk skPrefix : String) (table : List TableItem) : List JobRecord :=
  ((jobRecords table).filter fun r => r.gsi1pk = pk ∧ skPrefix.toList.isPrefixOf r.gsi1sk.toList)
    |>.insertionSort fun r r' => r.gsi1sk ≤ r'.gsi1sk

/-- GSI2: the jobs of a state. -/
def gsi2 (pk : String) (table : List TableItem) : List JobRecord :=
  ((jobRecords table).filter fun r => r.gsi2pk = pk)
    |>.insertionSort fun r r' => r.gsi2sk ≤ r'.gsi2sk

/-- GSI3: the markers that are due. -/
def gsi3 (index : DueIndex) (nowMs : Int) (table : List TableItem) : List (String × Int) :=
  (table.filterMap (TableItem.due? index nowMs)).insertionSort fun m m' => m.2 ≤ m'.2

/-- A query of the table's own keys, in the order of the sort key. -/
def workflowJobItems (workflowID : String) (table : List TableItem) : List String :=
  (table.filterMap (TableItem.workflowJob? workflowID)).insertionSort (· ≤ ·)
def workflowResultItems (workflowID : String) (table : List TableItem) : List (Int × String) :=
  (table.filterMap (TableItem.workflowResult? workflowID)).insertionSort fun e e' =>
    toString e.1 ≤ toString e'.1

/-! ## The methods -/

/-- What an `int` is below. -/
def intBound : Nat := 2 ^ 63

/-- `int` arithmetic, in 64 bits. -/
def goInt (n : Int) : Int := n.bmod (2 ^ 64)

/-- `items[lo:hi]` panics when the bounds are out of range. -/
def goSlice {α : Type} (items : List α) (lo hi : Int) : Except Error (List α) :=
  if 0 ≤ lo ∧ lo ≤ hi ∧ hi ≤ items.length then .ok ((items.take hi.toNat).drop lo.toNat)
  else .error (.plain "slice bounds out of range")

/-- The end of the slice of `limit` items from `offset` on. -/
def sliceEnd (length limit offset : Int) : Int :=
  if length < goInt (offset + limit) then length else goInt (offset + limit)

/-- The limit `ListJobsByState` sends with its second query. -/
def queryLimit (limit offset : Int) : Int := int32 (goInt (limit + offset))

/-- DynamoDB refuses a limit below one. -/
def invalidLimit : AwsError := .other "ValidationException"

/-- A state in a filter is a text; the states of records are those of the
lifecycle. -/
structure JobListFilters where
  state : String := ""
  queue : String := ""
  type : String := ""
  workerID : String := ""
deriving DecidableEq, Repr

namespace Paged

variable (s s' : Split)

def countJobsByQueueAndState (queue state : String) (table : List TableItem) : Nat :=
  (s.first none (gsi1 (gsi1pkOf queue) ("STATE#" ++ state ++ "#") table)).length

def listJobsByQueue (queue state : String) (limit : Int) (table : List TableItem) :
    Except Error (List JobRecord) :=
  let limit := int32 limit
  if limit < 1 then .error (failed "failed to query jobs by queue" invalidLimit)
  else .ok (s.first (some limit.toNat) (gsi1 (gsi1pkOf queue) ("STATE#" ++ state ++ "#") table))

/-- The first query counts, the second one gets the items. -/
def listJobsByState (state : String) (limit offset : Int) (table : List TableItem) :
    Except Error (List JobRecord × Nat) :=
  let index := gsi2 ("STATE#" ++ state) table
  let total := (s.first none index).length
  if queryLimit limit offset < 1 then
    .error (failed "failed to query jobs by state" invalidLimit)
  else
    let items := s'.first (some (queryLimit limit offset).toNat) index
    if items.length ≤ offset then .ok ([], total)
    else (goSlice items offset (sliceEnd items.length limit offset)).map (·, total)

def listQueues (table : List TableItem) : List String :=
  (s.first none table).filterMap TableItem.queueName?

def listCrons (table : List TableItem) : List CronRecord :=
  (s.first none table).filterMap TableItem.cron?

def getWorkflowJobs (workflowID : String) (table : List TableItem) : List String :=
  s.first none (workflowJobItems workflowID table)

def getWorkflowResults (workflowID : String) (table : List TableItem) : List (Int × String) :=
  s.first none (workflowResultItems workflowID table)

def queryDueJobs (index : DueIndex) (nowMs : Int) (table : List TableItem) : List String :=
  (s.first none (gsi3 index nowMs table)).map (·.1)

/-- `GetDueScheduledJobs` and `GetDueRetryJobs`: a table without GSI3 is
scanned. -/
def getDueJobs (hasIndex : Bool) (index : DueIndex) (nowMs : Int) (table : List TableItem) :
    List String :=
  if hasIndex then queryDueJobs s index nowMs table
  else (s'.first none table).filterMap fun item => (item.due? index nowMs).map (·.1)

end Paged

/-! ## ListAllJobs -/

/-- A filter that is not set lets every job pass. -/
def JobListFilters.admits (filters : JobListFilters) (r : JobRecord) : Bool :=
  (filters.state = "" || r.state.name = filters.state) &&
    (filters.queue = "" || r.queue = filters.queue) &&
    (filters.type = "" || r.type = filters.type) &&
    (filters.workerID = "" || r.workerID = filters.workerID)

/-- The jobs of the scan, newest first. -/
def newestFirst (jobs : List Job) : List Job :=
  jobs.insertionSort fun job job' => job'.createdAt ≤ job.createdAt

/-- The scan part of `ListAllJobs`. It asks for pages until one has no key;
`none` when `fuel` of them were not enough. -/
def scanAllJobs (s : Split) (fuel : Nat) (filters : JobListFilters) (limit offset : Int)
    (table : List TableItem) : Option (Except Error (List Job × Nat)) :=
  (s.readAll table fuel 0).map fun items =>
    let filtered := newestFirst (((jobRecords items).filter filters.admits).map recordToJob)
    let total := filtered.length
    if total ≤ offset then .ok ([], total)
    else (goSlice filtered offset (sliceEnd total limit offset)).map (·, total)

/-- `ListAllJobs` -/
def listAllJobs (s s' : Split) (fuel : Nat) (filters : JobListFilters) (limit offset : Int)
    (table : List TableItem) : Option (Except Error (List Job × Nat)) :=
  if filters.state ≠ "" ∧ filters.queue = "" ∧ filters.type = "" ∧ filters.workerID = "" then
    match Paged.listJobsByState s s' filters.state limit offset table with
    | .error e => some (.error e)
    | .ok (records, total) => some (.ok (records.map recordToJob, total))
  else scanAllJobs s fuel filters limit offset table

end OjsSqs
