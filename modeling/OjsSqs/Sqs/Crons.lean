import OjsSqs.Sqs.Workflows

/-! # Crons

A cron is a record with an expression and the instant of its next run.
`RegisterCron` writes it, `DeleteCron` removes it, and every server process
calls `FireCronJobs` every few seconds: it pushes the jobs of the crons that
are due and writes back their records. What the code uses of the cron library
and of the time zone database is collected in `CronLib`. -/
namespace OjsSqs
open Calls

/-- A parsed expression: `Next` after an instant, for a process whose local
time zone is `zone`. -/
structure Schedule where
  next (zone : String) (t : Time) : Time

structure CronLib where
  /-- `parser.Parse`, with the text of its error -/
  parse : String → Except String Schedule
  /-- `time.LoadLocation`, and `String` of the location -/
  loadLocation : String → Option String
  /-- `time.Parse(core.TimeFormat, s)` -/
  parseTimeFormat : String → Option Time
  /-- `json.Marshal` of a template succeeds -/
  marshalsTemplate : CronJobTemplate → Bool

/-- `core.CronJob` -/
structure CronJob where
  name : String
  expression : String := ""
  schedule : String := ""
  timezone : String := ""
  overlapPolicy : String := ""
  enabled : Bool := false
  jobTemplate : Option CronJobTemplate := none
  createdAt : String := ""
  nextRunAt : String := ""
  lastRunAt : String := ""
  queue : String := ""
deriving DecidableEq, Repr

variable (cfg : Config) (lib : CronLib)

/-! ## RegisterCron and DeleteCron -/

/-- The expression, or else the schedule field. -/
def CronJob.expr (cronJob : CronJob) : String :=
  if cronJob.expression = "" then cronJob.schedule else cronJob.expression

/-- The expression in its time zone; without the prefix when that does not
parse, as for special expressions. -/
def parseInZone (loc expr : String) : Except String Schedule :=
  match lib.parse ("CRON_TZ=" ++ loc ++ " " ++ expr) with
  | .ok schedule => .ok schedule
  | .error _ => lib.parse expr

/-- The schedule of a registration. -/
def registeredSchedule (timezone expr : String) : Except Error Schedule :=
  let invalid := fun err : String => Error.ojs .invalidRequest
    ("Invalid cron expression: " ++ expr) [("expression", expr), ("error", err)]
  if timezone = "" then (lib.parse expr).mapError invalid
  else match lib.loadLocation timezone with
    | none => .error (.ojs .invalidRequest ("Invalid timezone: " ++ timezone)
        [("timezone", timezone)])
    | some loc => (parseInZone lib loc expr).mapError invalid

/-- The queue of a registration: its own, its template's, or `default`. -/
def CronJob.queueOf (cronJob : CronJob) : String :=
  if cronJob.queue ≠ "" then cronJob.queue
  else match cronJob.jobTemplate with
    | some template => if template.queue ≠ "" then template.queue else "default"
    | none => "default"

/-- The cron with what `RegisterCron` fills in. -/
def CronJob.registered (cronJob : CronJob) (now next : Time) : CronJob :=
  { cronJob with
    createdAt := cfg.formatTime now
    nextRunAt := cfg.formatTime next
    schedule := cronJob.expr
    expression := cronJob.expr
    queue := cronJob.queueOf
    overlapPolicy := if cronJob.overlapPolicy = "" then "allow" else cronJob.overlapPolicy
    enabled := true }

/-- A template that cannot be encoded is left out. -/
def templateJSON (template : Option CronJobTemplate) : JsonText CronJobTemplate :=
  match template with
  | some t => if lib.marshalsTemplate t then .of t else .empty
  | none => .empty

/-- The record of a cron. -/
def CronJob.record (cronJob : CronJob) : CronRecord where
  name := cronJob.name
  expression := cronJob.expression
  timezone := cronJob.timezone
  overlapPolicy := cronJob.overlapPolicy
  enabled := cronJob.enabled
  jobTemplate := templateJSON lib cronJob.jobTemplate
  createdAt := cronJob.createdAt
  nextRunAt := cronJob.nextRunAt
  lastRunAt := cronJob.lastRunAt
  queue := cronJob.queue

/-- `RegisterCron`, in a process whose local time zone is `zone`. -/
def registerCron (zone : String) (cronJob : CronJob) : M (Except Error CronJob) := do
  match registeredSchedule lib cronJob.timezone cronJob.expr with
  | .error e => return .error e
  | .ok schedule =>
    let now ← timeNow
    let cronJob := cronJob.registered cfg now (schedule.next zone now)
    match ← putCron (cronJob.record lib) with
    | .error e => return .error e
    | .ok _ => return .ok cronJob

/-- The cron of a record, as `DeleteCron` returns it. -/
def CronRecord.deleted (record : CronRecord) : CronJob where
  name := record.name
  expression := record.expression
  timezone := record.timezone
  overlapPolicy := record.overlapPolicy
  enabled := record.enabled
  createdAt := record.createdAt
  nextRunAt := record.nextRunAt
  lastRunAt := record.lastRunAt
  jobTemplate := record.jobTemplate.unmarshal

/-- `DeleteCron` -/
def deleteCron (name : String) : M (Except Error CronJob) := do
  match ← getCron name with
  | .error _ => return .error (newNotFoundError "Cron job" name)
  | .ok record =>
    match ← deleteCronRecord name with
    | .error e => return .error e
    | .ok _ => return .ok record.deleted

/-! ## FireCronJobs -/

/-- The instant a stored `next_run_at` says, in one of two formats. -/
def nextRunOf (nextRunAt : String) : Option Time :=
  (cfg.parseRFC3339 nextRunAt).or (lib.parseTimeFormat nextRunAt)

/-- The job of the latest run of a cron with policy `skip` is not done. -/
def stillRunning (record : CronRecord) : M (Except Error Bool) := do
  if record.overlapPolicy ≠ "skip" then return .ok false
  else
    match ← getCronInstance record.name with
    | .error e => return .error (.wrap ("get cron instance " ++ record.name) e)
    | .ok instanceJobID =>
      if instanceJobID = "" then return .ok false
      else
        match ← getJob instanceJobID with
        | .error e => return .error (.wrap ("get cron instance job " ++ instanceJobID) e)
        | .ok job => return .ok !(isTerminalState job.state)

/-- The record after a run: the next run is computed from the expression
alone. -/
def CronRecord.ran (record : CronRecord) (schedule : Schedule) (zone : String) (now : Time) :
    CronRecord :=
  { record with
    nextRunAt := cfg.formatTime (schedule.next zone now)
    lastRunAt := cfg.formatTime now }

/-- A run that is skipped because of an overlap. -/
def skipRun (zone : String) (now : Time) (record : CronRecord) : M (Option Error) := do
  match lib.parse record.expression with
  | .error msg =>
    return some (.wrap ("parse cron expression for skip " ++ record.name) (.plain msg))
  | .ok schedule =>
    match ← putCron (record.ran cfg schedule zone now) with
    | .error e => return some (.wrap ("update skipped cron schedule " ++ record.name) e)
    | .ok _ => return none

/-- The job of a run: its type may be empty, and a template may not decode. -/
def cronJobOf (record : CronRecord) : Except Error Job :=
  let queue := queueOrDefault record.queue
  match record.jobTemplate with
  | .empty => .ok { type := "", queue := queue }
  | .invalid => .error (.wrap ("unmarshal cron job template " ++ record.name) (.plain "json"))
  | .of t => .ok { type := t.type, args := t.args, queue := if t.queue ≠ "" then t.queue else queue }

/-- The record is written back after a run. When its expression does not parse
the next run stays where it was. -/
def finishRun (zone : String) (now : Time) (record : CronRecord) : M (Option Error) := do
  match lib.parse record.expression with
  | .error msg =>
    let parseErr := Error.wrap ("parse cron expression for next run " ++ record.name) (.plain msg)
    let _ ← putCron { record with lastRunAt := cfg.formatTime now }
    return some parseErr
  | .ok schedule =>
    match ← putCron (record.ran cfg schedule zone now) with
    | .error e => return some (.wrap ("persist cron update " ++ record.name) e)
    | .ok _ => return none

/-- The run of a cron: its job is pushed, and kept as the cron's instance. -/
def pushRun (zone : String) (now : Time) (record : CronRecord) : M (Option Error) := do
  match cronJobOf record with
  | .error e => return some e
  | .ok job =>
    if job.type = "" then return none
    else
      match ← push cfg job with
      | .error e => return some (.wrap ("enqueue cron job for " ++ record.name) e)
      | .ok created =>
        match ← setCronInstance record.name created.id with
        | .error e => return some (.wrap ("set cron instance " ++ record.name) e)
        | .ok _ => finishRun cfg lib zone now record

/-- What follows once the lock of a cron has been acquired. -/
def runLocked (zone : String) (now : Time) (record : CronRecord) : M (Option Error) := do
  match ← stillRunning record with
  | .error e => return some e
  | .ok true => skipRun cfg lib zone now record
  | .ok false => pushRun cfg lib zone now record

/-- One cron of the loop. -/
def fireCron (zone : String) (now : Time) (record : CronRecord) : M (Option Error) := do
  if record.enabled = false ∨ record.nextRunAt = "" then return none
  else
    match nextRunOf cfg lib record.nextRunAt with
    | none =>
      return some (.wrap ("parse cron next_run_at for " ++ record.name) (.plain "time"))
    | some nextRun =>
      if now < nextRun then return none
      else
        match ← acquireCronLock record.name nextRun.unix with
        | .error e => return some (.wrap ("acquire cron lock " ++ record.name) e)
        | .ok false => return none
        | .ok true => runLocked cfg lib zone now record

/-- The loop goes on after an error and keeps the first one. -/
def fireAll (zone : String) (now : Time) : List CronRecord → Option Error → M (Option Error)
  | [], firstErr => return firstErr
  | record :: records, firstErr => do
    let err ← fireCron cfg lib zone now record
    fireAll zone now records (firstErr.or err)

/-- `FireCronJobs` -/
def fireCronJobs (zone : String) : M (Option Error) := do
  match ← listCrons with
  | .error e => return some e
  | .ok crons =>
    let now ← timeNow
    fireAll cfg lib zone now crons none

end OjsSqs
