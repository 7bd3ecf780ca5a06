import OjsSqs.Listing.Reads
import Mathlib.Data.List.Sort

/-! # Queues: pausing them, showing them, and the heartbeat of a worker

`ListQueues` and `QueueStats` read the table. Where no read fails they are
functions of the items that their requests are answered with. -/
namespace OjsSqs
open Calls

variable (cfg : Config)

/-- The pattern of queue names in the API: `^[a-z0-9][a-z0-9\-\.]*$` -/
def queueNamePattern (name : String) : Bool :=
  let alphanumeric := fun c : Char => ('a' ≤ c && c ≤ 'z') || ('0' ≤ c && c ≤ '9')
  match name.toList with
  | [] => false
  | c :: cs => alphanumeric c && cs.all fun c => alphanumeric c || c = '-' || c = '.'

/-- `PauseQueue` -/
def pauseQueue (name : String) : M (Except Error Unit) := setQueuePaused name true

/-- `ResumeQueue` -/
def resumeQueue (name : String) : M (Except Error Unit) := setQueuePaused name false

/-! ## What is shown -/

/-- `core.QueueInfo` -/
structure QueueInfo where
  name : String
  status : String
deriving DecidableEq, Repr

/-- `core.QueueStats` -/
structure QueueStats where
  queue : String
  status : String
  available : Nat
  active : Nat
  completed : Nat
deriving DecidableEq, Repr

def statusOf (paused : Bool) : String := if paused then "paused" else "active"

namespace Store

/-- `IsQueuePaused`, an error of which counts as no. -/
def isPaused (name : String) (s : Store) : Bool :=
  ((s.queues.lookup name).map (·.paused)).getD false

/-- `GetQueueCompletedCount`: zero without an item. -/
def completedCount (name : String) (s : Store) : Nat :=
  ((s.queues.lookup name).map (·.completed)).getD 0

/-- `ListQueues`, its scan of the table answered by `split`. -/
def listQueues (split : Split) (table : List TableItem) (s : Store) : List QueueInfo :=
  ((Paged.listQueues split table).insertionSort (· ≤ ·)).map
    fun name => ⟨name, statusOf (s.isPaused name)⟩

/-- `QueueStats`, its two counts answered by `split` and `split'`. -/
def queueStats (split split' : Split) (table : List TableItem) (name : String) (s : Store) :
    QueueStats where
  queue := name
  status := statusOf (s.isPaused name)
  available := Paged.countJobsByQueueAndState split name JobState.available.name table
  active := Paged.countJobsByQueueAndState split' name JobState.active.name table
  completed := s.completedCount name

end Store

/-! ## Heartbeats -/

/-- One job of a heartbeat: the message its handle names stays hidden. -/
def extendJob (timeoutSec : Int) (jobID : String) : M Bool := do
  match ← getJob jobID with
  | .error _ => return false
  | .ok record =>
    if record.state ≠ .active then return false
    else
      match record.sqsReceiptHandle with
      | none => return false
      | some h =>
        match ← getOrCreateQueueURL cfg record.queue with
        | .error _ => return false
        | .ok queueURL =>
          let a ← sqs (.changeMessageVisibility queueURL h timeoutSec)
          return a.toOption.isSome

/-- The jobs a heartbeat has extended. -/
def extendJobs (timeoutSec : Int) : List String → M (List String)
  | [] => return []
  | jobID :: jobIDs => do
    let extended ← extendJob cfg timeoutSec jobID
    let rest ← extendJobs timeoutSec jobIDs
    return if extended then jobID :: rest else rest

/-- What `Heartbeat` does to the jobs of the worker. -/
def heartbeatJobs (activeJobs : List String) (visibilityTimeoutMs : Int) : M (List String) :=
  extendJobs cfg (int32 (visibilityTimeoutMs.tdiv 1000)) activeJobs

end OjsSqs
