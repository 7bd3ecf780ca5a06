import Mathlib.Tactic.Basic
import Mathlib.Data.List.AList

/-! # Jobs, policies and errors

The types the backend shares with the other backends. Most of them live in
the common library, which is not part of this repository: their fields are
the ones this repository reads, writes or copies. What the backend calls from
that library and from the Go runtime, and cannot be read here, is collected
in `Common` and stays arbitrary in every theorem. -/
namespace OjsSqs

/-- Instants and durations, in nanoseconds. -/
abbrev Time := Int

/-- `t.UnixMilli()` -/
def Time.unixMilli (t : Time) : Int := t / 1000000

/-- `t.Unix()` -/
def Time.unix (t : Time) : Int := t / 1000000000

/-- `int64(d.Seconds())` of a duration, and `d.Milliseconds()`: both cut off. -/
def Time.seconds (d : Time) : Int := d.tdiv 1000000000
def Time.milliseconds (d : Time) : Int := d.tdiv 1000000

/-- The job states of the lifecycle. -/
inductive JobState where
  | scheduled | available | pending | active | completed | retryable | cancelled | discarded
deriving DecidableEq, Repr

/-- The text of a state in the store and in messages. -/
def JobState.name : JobState → String
  | .scheduled => "scheduled"
  | .available => "available"
  | .pending => "pending"
  | .active => "active"
  | .completed => "completed"
  | .retryable => "retryable"
  | .cancelled => "cancelled"
  | .discarded => "discarded"

/-- `core.IsTerminalState`: the states the lifecycle table marks as terminal. -/
def isTerminalState : JobState → Bool
  | .completed | .cancelled | .discarded => true
  | _ => false

/-- A string attribute that holds JSON: empty, text that does not parse, or
the encoding of a value. -/
inductive JsonText (α : Type) where
  | empty
  | invalid
  | of (a : α)
deriving DecidableEq, Repr

/-- `json.Unmarshal` of a non-empty attribute. -/
def JsonText.unmarshal {α : Type} : JsonText α → Option α
  | .of a => some a
  | _ => none

/-- The error object a Nack stores. -/
structure ErrorObject where
  message : String
  attempt : Int
  type : Option String := none
  retryable : Option Bool := none
  details : Option String := none
deriving DecidableEq, Repr

/-- A JSON value the backend carries: text from a client or a worker, or an
error object it encoded itself. -/
inductive RawMessage where
  | text (json : String)
  | errorObject (e : ErrorObject)
deriving DecidableEq, Repr

/-- `core.JobError`, what a worker reports with a Nack. -/
structure JobError where
  code : String := ""
  type : String := ""
  message : String := ""
  retryable : Option Bool := none
  details : Option String := none
deriving DecidableEq, Repr

/-- `core.RetryPolicy` -/
structure RetryPolicy where
  maxAttempts : Int := 3
  initialInterval : String := ""
  /-- The bits of a `float64`. -/
  backoffCoefficient : UInt64 := 0
  maxInterval : String := ""
  jitter : Bool := false
  nonRetryableErrors : List String := []
  onExhaustion : String := ""
deriving DecidableEq, Repr

/-- `core.UniquePolicy` -/
structure UniquePolicy where
  keys : List String := []
  period : String := ""
  onConflict : String := ""
  states : List String := []
deriving DecidableEq, Repr

/-- `core.Job`. A text field that is absent is the empty string, as in Go. -/
structure Job where
  id : String := ""
  type : String := ""
  state : JobState := .available
  queue : String := ""
  args : Option String := none
  metadata : Option String := none
  priority : Option Int := none
  attempt : Int := 0
  maxAttempts : Option Int := none
  timeoutMs : Option Int := none
  createdAt : String := ""
  enqueuedAt : String := ""
  startedAt : String := ""
  completedAt : String := ""
  cancelledAt : String := ""
  scheduledAt : String := ""
  result : Option String := none
  error : Option RawMessage := none
  errors : List RawMessage := []
  tags : List String := []
  retry : Option RetryPolicy := none
  unique : Option UniquePolicy := none
  expiresAt : String := ""
  retryDelayMs : Option Int := none
  visibilityTimeoutMs : Option Int := none
  workflowID : String := ""
  workflowStep : Int := 0
  parentResults : List RawMessage := []
  unknownFields : List (String × String) := []
  isExisting : Bool := false
deriving DecidableEq, Repr

/-- The codes of the common error type. -/
inductive ErrCode where
  | invalidRequest | notFound | conflict | duplicate
deriving DecidableEq, Repr

/-- What an AWS call reports when it does not succeed. -/
inductive AwsError where
  | conditionalCheckFailed
  | missingIndex
  | other (message : String)
deriving DecidableEq, Repr

/-- The error values of the backend: an `OJSError`, a plain error, a failed
AWS call, and `fmt.Errorf` with `%w`. -/
inductive Error where
  | ojs (code : ErrCode) (message : String) (details : List (String × String))
  | plain (message : String)
  | aws (e : AwsError)
  | wrap (context : String) (cause : Error)
deriving DecidableEq, Repr

/-- `core.NewNotFoundError` -/
def newNotFoundError (resource id : String) : Error := .ojs .notFound resource [("id", id)]

/-- `core.NewConflictError` -/
def newConflictError (message : String) (details : List (String × String)) : Error :=
  .ojs .conflict message details

/-- The code of a bare `*core.OJSError`, as a type assertion finds it. -/
def Error.code? : Error → Option ErrCode
  | .ojs code _ _ => some code
  | _ => none

/-- `strings.Contains(err.Error(), "ConditionalCheckFailedException")`: the
text of this one AWS error, under any wrapping. -/
def Error.isConditionalCheckFailed : Error → Bool
  | .aws .conditionalCheckFailed => true
  | .wrap _ cause => cause.isConditionalCheckFailed
  | _ => false

/-- What the backend uses from the common library and the Go runtime. -/
structure Common where
  /-- `core.FormatTime` -/
  formatTime : Time → String
  /-- `time.Parse(time.RFC3339, s)` -/
  parseRFC3339 : String → Option Time
  /-- `core.ParseISO8601Duration` -/
  parseISO8601Duration : String → Option Time
  /-- `core.CalculateBackoff` -/
  calculateBackoff : Option RetryPolicy → Int → Time
  /-- `core.ValidateEnqueueRequest` on the type and the arguments -/
  validateEnqueueRequest : String → Option String → Option Error
  /-- `fmt.Sprintf("%x", sha256)` of the bytes written -/
  sha256Hex : String → String
  /-- `regexp.Compile`, and `MatchString` when it succeeds -/
  regexpMatch : String → Option (String → Bool)
  /-- `len(data)` of `json.Marshal(job)`, when it succeeds -/
  marshalSize : Job → Option Nat
  /-- `core.DefaultVisibilityTimeoutMs` -/
  defaultVisibilityTimeoutMs : Int

/-- The settings of one server process. -/
structure Config extends Common where
  queuePrefix : String
  useFIFO : Bool

end OjsSqs
