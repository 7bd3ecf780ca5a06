import OjsSqs.Grpc.Durations
import OjsSqs.Sqs.Workflows

/-! # Messages and core jobs

The messages of the gRPC API, as far as the server reads or writes them, and
the converters between them and the types of the backend. -/
namespace OjsSqs

/-- What the converters use of the protobuf runtime and of `encoding/json`. -/
structure ProtoLib where
  /-- `structpb.Value` and `structpb.Struct` -/
  Value : Type
  Struct : Type
  /-- `json.Marshal(valuesToInterface(args))` -/
  marshalValues : List Value → Option String
  /-- `json.Marshal(s.AsMap())` -/
  marshalStruct : Struct → Option String
  /-- `json.Unmarshal` of a list, and `structpb.NewValue` of its elements -/
  unmarshalValues : String → Option (List (Option Value))
  /-- `json.Unmarshal` of an object, and `structpb.NewStruct` -/
  unmarshalStruct : String → Option Struct

namespace Proto

/-- `durationpb.Duration` -/
structure Duration where
  seconds : Int
  nanos : Int
deriving DecidableEq, Repr

/-- `timestamppb.Timestamp` -/
structure Timestamp where
  seconds : Int
  nanos : Int
deriving DecidableEq, Repr

/-- `AsDuration`: in 64 bits, and cut off at their ends when it overflows. -/
def Duration.asDuration (d : Duration) : Time :=
  let t := goInt (d.seconds * 1000000000)
  let sum := goInt (t + d.nanos)
  if t.tdiv 1000000000 ≠ d.seconds ∨ (d.seconds < 0 ∧ d.nanos < 0 ∧ 0 < sum) ∨
      (0 < d.seconds ∧ 0 < d.nanos ∧ sum < 0) then
    if d.seconds < 0 then -intBound else if 0 < d.seconds then intBound - 1 else sum
  else sum

/-- `durationpb.New` -/
def newDuration (d : Time) : Duration :=
  { seconds := d.tdiv 1000000000, nanos := d - d.tdiv 1000000000 * 1000000000 }

/-- `AsTime` and `timestamppb.New` -/
def Timestamp.asTime (t : Timestamp) : Time := t.seconds * 1000000000 + t.nanos
def newTimestamp (t : Time) : Timestamp :=
  { seconds := t / 1000000000, nanos := t % 1000000000 }

structure RetryPolicy where
  maxAttempts : Int := 0
  initialInterval : Option Duration := none
  backoffCoefficient : UInt64 := 0
  maxInterval : Option Duration := none
  jitter : Bool := false
deriving DecidableEq, Repr

structure UniquePolicy where
  key : List String := []
  period : Option Duration := none
deriving DecidableEq, Repr

structure EnqueueOptions (P : ProtoLib) where
  queue : String := ""
  priority : Int := 0
  metadata : Option P.Struct := none
  retry : Option RetryPolicy := none
  unique : Option UniquePolicy := none
  delayUntil : Option Timestamp := none

structure EnqueueRequest (P : ProtoLib) where
  type : String
  args : List P.Value := []
  options : Option (EnqueueOptions P) := none

structure BatchJobEntry (P : ProtoLib) where
  type : String
  args : List P.Value := []
  options : Option (EnqueueOptions P) := none

structure WorkflowStep (P : ProtoLib) where
  type : String
  args : List P.Value := []

structure CreateWorkflowRequest (P : ProtoLib) where
  name : String := ""
  steps : List (WorkflowStep P) := []

inductive JobState where
  | unspecified | scheduled | available | pending | active | completed | retryable | cancelled
  | discarded
deriving DecidableEq, Repr

structure Job (P : ProtoLib) where
  id : String
  type : String
  queue : String
  state : JobState
  attempt : Int
  priority : Int := 0
  args : List P.Value := []
  metadata : Option P.Struct := none
  result : Option P.Struct := none
  createdAt : Option Timestamp := none
  enqueuedAt : Option Timestamp := none
  scheduledAt : Option Timestamp := none
  startedAt : Option Timestamp := none
  completedAt : Option Timestamp := none
  retryPolicy : Option RetryPolicy := none
  uniquePolicy : Option UniquePolicy := none

end Proto

/-! ## Timestamps -/

def pad (width n : Nat) : String :=
  let digits := toString n
  .ofList (List.replicate (width - digits.length) '0') ++ digits

/-- Year, month and day of a day counted from 1970-01-01. -/
def civilOfDays (days : Int) : Int × Nat × Nat :=
  let z := days + 719468
  let era := z / 146097
  let doe := (z % 146097).toNat
  let yoe := (doe - doe / 1460 + doe / 36524 - doe / 146096) / 365
  let doy := doe - (365 * yoe + yoe / 4 - yoe / 100)
  let mp := (5 * doy + 2) / 153
  let month := if mp < 10 then mp + 3 else mp - 9
  let year := (yoe : Int) + era * 400 + if month ≤ 2 then 1 else 0
  (year, month, doy - (153 * mp + 2) / 5 + 1)

/-- `t.UTC().Format(time.RFC3339)` -/
def formatRFC3339 (t : Time) : String :=
  let secs := t.unix
  let (year, month, day) := civilOfDays (secs / 86400)
  let rest := (secs % 86400).toNat
  (if year < 0 then "-" else "") ++ pad 4 year.natAbs ++ "-" ++ pad 2 month ++ "-" ++ pad 2 day ++
    "T" ++ pad 2 (rest / 3600) ++ ":" ++ pad 2 (rest / 60 % 60) ++ ":" ++ pad 2 (rest % 60) ++ "Z"

/-! ## From messages -/

/-- The text of an interval; empty when it is not sent. -/
def intervalString : Option Proto.Duration → String
  | none => ""
  | some d => durationString d.asDuration

def protoRetryToCore (r : Proto.RetryPolicy) : RetryPolicy where
  maxAttempts := r.maxAttempts
  backoffCoefficient := r.backoffCoefficient
  jitter := r.jitter
  initialInterval := intervalString r.initialInterval
  maxInterval := intervalString r.maxInterval

def protoUniqueToCore (u : Proto.UniquePolicy) : UniquePolicy where
  keys := u.key
  period := intervalString u.period

section
variable {P : ProtoLib}

/-- The arguments of a message: none when there are none, or when they cannot be
encoded. -/
def argsOf (args : List P.Value) : Option String :=
  if args.isEmpty then none else P.marshalValues args

/-- `valuesToInterface` and the options, as `enqueueRequestToJob` reads them. -/
def enqueueRequestToJob (req : Proto.EnqueueRequest P) : Job :=
  let job : Job := { type := req.type, args := argsOf req.args }
  match req.options with
  | none => job
  | some opts => { job with
      queue := opts.queue
      priority := if opts.priority ≠ 0 then some opts.priority else none
      metadata := opts.metadata.bind P.marshalStruct
      retry := opts.retry.map protoRetryToCore
      unique := opts.unique.map protoUniqueToCore
      scheduledAt := match opts.delayUntil with
        | none => ""
        | some t => formatRFC3339 t.asTime }

/-- The converter of a batch entry. -/
def enqueueJobRequestToJob (req : Proto.BatchJobEntry P) : Job :=
  let job : Job := { type := req.type, args := argsOf req.args }
  match req.options with
  | none => job
  | some opts => { job with
      queue := opts.queue
      priority := if opts.priority ≠ 0 then some opts.priority else none
      metadata := opts.metadata.bind P.marshalStruct }

/-- The step's identifier becomes a name that nothing reads. -/
def protoToWorkflowStep (req : Proto.WorkflowStep P) : WorkflowJobRequest where
  type := req.type
  args := argsOf req.args

/-- The type of the request is not set, nor are its jobs. -/
def protoToWorkflowRequest (req : Proto.CreateWorkflowRequest P) : WorkflowRequest where
  type := ""
  name := req.name
  steps := req.steps.map protoToWorkflowStep

/-! ## To messages -/

def stateToProto : JobState → Proto.JobState
  | .scheduled => .scheduled
  | .available => .available
  | .pending => .pending
  | .active => .active
  | .completed => .completed
  | .retryable => .retryable
  | .cancelled => .cancelled
  | .discarded => .discarded

/-- The interval of a policy, when `time.ParseDuration` takes its text. -/
def parseInterval (s : String) : Option Proto.Duration := (parseDuration s).map Proto.newDuration

def coreRetryToProto (r : RetryPolicy) : Proto.RetryPolicy where
  maxAttempts := int32 r.maxAttempts
  backoffCoefficient := r.backoffCoefficient
  jitter := r.jitter
  initialInterval := parseInterval r.initialInterval
  maxInterval := parseInterval r.maxInterval

def coreUniqueToProto (u : UniquePolicy) : Proto.UniquePolicy where
  key := u.keys
  period := parseInterval u.period

variable (cfg : Config)

/-- A timestamp that is absent or does not parse is left out. -/
def protoTime (s : String) : Option Proto.Timestamp :=
  if s = "" then none else (cfg.parseRFC3339 s).map Proto.newTimestamp

def jobToProto (j : Job) : Proto.Job P where
  id := j.id
  type := j.type
  queue := j.queue
  state := stateToProto j.state
  attempt := int32 j.attempt
  priority := match j.priority with
    | none => 0
    | some p => int32 p
  -- an argument that has no protobuf value is dropped
  args := ((j.args.bind P.unmarshalValues).getD []).filterMap id
  metadata := j.metadata.bind P.unmarshalStruct
  result := j.result.bind P.unmarshalStruct
  createdAt := protoTime cfg j.createdAt
  enqueuedAt := protoTime cfg j.enqueuedAt
  scheduledAt := protoTime cfg j.scheduledAt
  startedAt := protoTime cfg j.startedAt
  completedAt := protoTime cfg j.completedAt
  retryPolicy := j.retry.map coreRetryToProto
  uniquePolicy := j.unique.map coreUniqueToProto

end
end OjsSqs
