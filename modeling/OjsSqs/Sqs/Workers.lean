import OjsSqs.Calls.Beside
import OjsSqs.Sqs.QueueOps

/-! # Workers

A worker's item holds what its last heartbeat wrote and the directive of an
operator. A heartbeat puts the item, which replaces it, and reads the directive
from it afterwards. -/
namespace OjsSqs
open Calls

/-- The attributes of a worker's item, by name. -/
abbrev WorkerItem := Table String

inductive WorkerCall where
  | putWorkerItem (workerID : String) (data : WorkerItem)
  | getWorkerItem (workerID : String)
  | setDirectiveItem (workerID directive : String)

abbrev WorkerCall.Answer : WorkerCall → Type
  | .getWorkerItem _ => Except AwsError (Option WorkerItem)
  | _ => Except AwsError Unit

/-- What a request to the items of the workers does when it succeeds: a put
replaces the item, an update creates it where there is none. -/
def WorkerCall.run : (c : WorkerCall) → Table WorkerItem → c.Answer × Table WorkerItem
  | .putWorkerItem id data, s => (.ok (), s.insert id data)
  | .getWorkerItem id, s => (.ok (s.lookup id), s)
  | .setDirectiveItem id d, s =>
    (.ok (), s.insert id (((s.lookup id).getD ∅).insert "directive" d))

def WorkerCall.env : Env (Table WorkerItem) WorkerCall WorkerCall.Answer :=
  fun c s r s' => r = (c.run s).1 ∧ s' = (c.run s).2

/-- The programs that also use the items of the workers. -/
abbrev WM := Prog (Call ⊕ WorkerCall) (Beside Answer WorkerCall.Answer)

def workerCall (c : WorkerCall) : WM c.Answer := .inr c

/-! ## The methods of the store -/

/-- `PutWorker` -/
def putWorker (workerID : String) (data : WorkerItem) : WM (Except Error Unit) := do
  let r ← workerCall (.putWorkerItem workerID data)
  return r.mapError (failed "failed to put worker")

/-- `GetWorkerDirective`: the empty string when there is none. -/
def getWorkerDirective (workerID : String) : WM (Except Error String) := do
  match ← workerCall (.getWorkerItem workerID) with
  | .error e => return .error (failed "failed to get worker" e)
  | .ok none => return .ok ""
  | .ok (some item) => return .ok ((item.lookup "directive").getD "")

/-- `SetWorkerDirective` -/
def setWorkerDirective (workerID directive : String) : WM (Except Error Unit) := do
  let r ← workerCall (.setDirectiveItem workerID directive)
  return r.mapError (failed "failed to set worker directive")

/-! ## SetWorkerState and Heartbeat -/

/-- `SetWorkerState` -/
def setWorkerState (workerID state : String) : WM (Except Error Unit) :=
  setWorkerDirective workerID state

/-- A value of a decoded JSON object, as far as a heartbeat looks at it. -/
inductive MetaValue where
  | string (s : String)
  | other
deriving DecidableEq, Repr

/-- `json.Unmarshal` of the metadata into `map[string]any`, when it succeeds. -/
abbrev MetaDecoder := String → Option (Table MetaValue)

variable (cfg : Config) (unmarshal : MetaDecoder)

/-- The directive a job's metadata asks for. -/
def testDirective (record : JobRecord) : Option String :=
  if record.metadata = "" then none
  else match unmarshal record.metadata with
    | none => none
    | some metaObj => match metaObj.lookup "test_directive" with
      | some (.string s) => if s = "" then none else some s
      | _ => none

/-- The first directive in the metadata of the jobs; `continue` without one. -/
def metaDirective : List String → M String
  | [] => return "continue"
  | jobID :: jobIDs => do
    match ← getJob jobID with
    | .error _ => metaDirective jobIDs
    | .ok record => match testDirective unmarshal record with
      | some d => return d
      | none => metaDirective jobIDs

structure HeartbeatResponse where
  state : String
  directive : String
  jobsExtended : List String
  serverTime : String
deriving DecidableEq, Repr

/-- What `Heartbeat` puts into the item. -/
def heartbeatData (now : Time) (activeJobs : List String) : WorkerItem :=
  (AList.singleton "last_heartbeat" (cfg.formatTime now)).insert "active_jobs"
    (toString activeJobs.length)

/-- The stored directive; `continue` when none can be read. -/
def directiveOf : Except Error String → String
  | .error _ => "continue"
  | .ok d => if d = "" then "continue" else d

/-- The directive of a heartbeat: the stored one, or else one of the jobs. -/
def heartbeatDirective (workerID : String) (activeJobs : List String) : WM String := do
  let stored ← getWorkerDirective workerID
  if directiveOf stored = "continue" then (metaDirective unmarshal activeJobs).inl
  else return directiveOf stored

/-- `Heartbeat` -/
def heartbeat (workerID : String) (activeJobs : List String) (visibilityTimeoutMs : Int) :
    WM HeartbeatResponse := do
  let now ← timeNow.inl
  let _ ← putWorker workerID (heartbeatData cfg now activeJobs)
  let extended ← (heartbeatJobs cfg activeJobs visibilityTimeoutMs).inl
  let directive ← heartbeatDirective unmarshal workerID activeJobs
  return {
    state := "active"
    directive := directive
    jobsExtended := extended
    serverTime := cfg.formatTime now }

end OjsSqs
