import OjsSqs.Atomic.Steps
import OjsSqs.Racing.Footprint
import OjsSqs.Sqs.Crons

/-! # Processes that run the crons

Any number of server processes call `FireCronJobs` over one store, while
clients register and delete crons. Each call is a thread of a pool. What the
calls of such a thread may do to the crons is the matter of its monitor: which
lock it asks for, when it stores a job, and which record it writes back. -/
namespace OjsSqs
open Calls

/-- What one thread does. -/
inductive CronOp where
  | fire (zone : String)
  | register (zone : String) (cronJob : CronJob)
  | delete (name : String)

def CronOp.prog (cfg : Config) (lib : CronLib) : CronOp → M Unit
  | .fire zone => do
    let _ ← fireCronJobs cfg lib zone
    return ()
  | .register zone cronJob => do
    let _ ← registerCron cfg lib zone cronJob
    return ()
  | .delete name => do
    let _ ← deleteCron name
    return ()

/-! ## Clocks of their own -/

/-- A call under the rules, by a process whose clock may show any instant. -/
def Rules.skewedAct (ρ : Rules) : Choice → (c : Call) → World → Option (Answer c × World)
  | .tick t, .proc .now, w => some (t, w)
  | ch, c, w => ρ.act ch c w

def Rules.skewed (ρ : Rules) : Env World Call Answer := .ofAct ρ.skewedAct

theorem Rules.skewed_cases {ρ : Rules} {c : Call} {w w' : World} {r : Answer c}
    (h : ρ.skewed c w r w') : ρ.env c w r w' ∨ c = .proc .now ∧ w' = w := by
  obtain ⟨ch, he⟩ := h
  by_cases hc : c = .proc .now
  · subst hc
    cases ch <;> first
      | (cases he; exact .inr ⟨rfl, rfl⟩)
      | exact .inl ⟨_, he⟩
  · refine .inl ⟨ch, ?_⟩
    rw [skewedAct] at he
    · exact he
    · exact fun _ _ hcall => absurd hcall hc

/-- What no request of the store changes. -/
theorem Rules.skewed_frame {ρ : Rules} {β : Type} (f : Store → β) {c : Call} {w w' : World}
    {r : Answer c} (hf : ∀ d, c = .dynamo d → f (w.store.run d).2 = f w.store)
    (h : ρ.skewed c w r w') : f w'.store = f w.store := by
  rcases Rules.skewed_cases h with he | ⟨-, rfl⟩
  · exact Rules.env_frame f hf he
  · rfl

/-! ## The monitor of a run -/

/-- Where a run of `FireCronJobs` stands: before the scan, before it reads the
clock, and in the loop, with the clock it has read, the crons it has listed,
the lock it acquired last and whether it has stored a job under it. -/
inductive Firing where
  | start
  | listed (crons : List CronRecord)
  | turn (now : Time) (crons : List CronRecord) (lock : Option (String × Int)) (spent : Bool)

section
variable (cfg : Config) (lib : CronLib)

/-- `r` is what a run at `now` may write back for the listed cron. -/
def WritesBack (zone : String) (now : Time) (cron r : CronRecord) : Prop :=
  match lib.parse cron.expression with
  | .ok schedule => r = cron.ran cfg schedule zone now
  | .error _ => r = { cron with lastRunAt := cfg.formatTime now }

/-- The lock is the one of a listed cron: its name, and the second of its next
run. -/
def LocksListed (crons : List CronRecord) (name : String) (ts : Int) : Prop :=
  ∃ cron ∈ crons, cron.name = name ∧ ∃ t, nextRunOf cfg lib cron.nextRunAt = some t ∧ t.unix = ts

/-- The calls a run makes in its loop. -/
def Firing.allows (zone : String) (now : Time) (crons : List CronRecord)
    (lock : Option (String × Int)) (spent : Bool) : Call → Prop
  | .dynamo (.putCronLockItem name ts _) => LocksListed cfg lib crons name ts
  | .dynamo (.putJobItem _) => lock.isSome ∧ spent = false
  | .dynamo (.putCronItem r) => ∃ cron ∈ crons, WritesBack cfg lib zone now cron r
  | .dynamo (.deleteCronItem _) | .dynamo .scanCrons => False
  | _ => True

/-- Follows one run of `FireCronJobs`. -/
def firing (zone : String) : Monitor Firing Call Answer Unit where
  allow
    | .start, c => c = .dynamo .scanCrons
    | .listed _, c => c = .proc .now
    | .turn now crons lock spent, c => Firing.allows cfg lib zone now crons lock spent c
  next
    | .start, .dynamo .scanCrons, .ok crons => .listed crons
    | .listed crons, .proc .now, t => .turn t crons none false
    | .turn now crons _ _, .dynamo (.putCronLockItem name ts _), .ok _ =>
      .turn now crons (some (name, ts)) false
    | .turn now crons _ _, .dynamo (.putCronLockItem _ _ _), .error _ => .turn now crons none false
    | .turn now crons lock _, .dynamo (.putJobItem _), _ => .turn now crons lock true
    | s, _, _ => s
  accept _ _ := True

/-- Follows a `RegisterCron`: it reads the clock and writes its record. -/
def registering (zone : String) (cronJob : CronJob) : Monitor Firing Call Answer Unit where
  allow
    | .turn now _ _ _, c => ∃ schedule,
        registeredSchedule lib cronJob.timezone cronJob.expr = .ok schedule ∧
        c = .dynamo (.putCronItem
          ((cronJob.registered cfg now (schedule.next zone now)).record lib))
    | .start, c => c = .proc .now
    | .listed _, _ => False
  next
    | .start, .proc .now, t => .turn t [] none false
    | s, _, _ => s
  accept _ _ := True

/-- Follows a `DeleteCron`. -/
def deleting (name : String) : Monitor Firing Call Answer Unit where
  allow _ c := c = .dynamo (.getCronItem name) ∨ c = .dynamo (.deleteCronItem name)
  next s _ _ := s
  accept _ _ := True

def CronOp.monitor : CronOp → Monitor Firing Call Answer Unit
  | .fire zone => firing cfg lib zone
  | .register zone cronJob => registering cfg lib zone cronJob
  | .delete name => deleting name

end

/-! ## The programs conform -/

/-- The call is none the loop's monitor cares about. -/
def Call.offCrons : Call → Prop
  | .dynamo (.putCronLockItem _ _ _) | .dynamo (.putJobItem _) | .dynamo (.putCronItem _)
  | .dynamo (.deleteCronItem _) | .dynamo .scanCrons => False
  | _ => True

theorem Call.offCrons_of_isAside {c : Call} (h : c.isAside) : c.offCrons := by
  cases c with
  | dynamo d => cases h
  | sqs c => trivial
  | proc c => trivial

section
variable (cfg : Config) (lib : CronLib) {zone : String} {now : Time} {crons : List CronRecord}
  {lock : Option (String × Int)} {spent : Bool} {record : CronRecord}

theorem firing_off {β : Type} {p : M β} {Q : β → Firing → Prop} (hp : p.Only Call.offCrons)
    (hQ : ∀ a, Q a (.turn now crons lock spent)) :
    wp (firing cfg lib zone).effect p Q (.turn now crons lock spent) := by
  refine Monitor.wp_only hp (fun c hc => ?_) hQ
  cases c with
  | dynamo d => cases d <;> first | exact ⟨trivial, fun _ => rfl⟩ | exact hc.elim
  | sqs c => exact ⟨trivial, fun _ => rfl⟩
  | proc c => exact ⟨trivial, fun _ => rfl⟩

theorem firing_aside {β : Type} {p : M β} {Q : β → Firing → Prop} (hp : p.Only (·.isAside))
    (hQ : ∀ a, Q a (.turn now crons lock spent)) :
    wp (firing cfg lib zone).effect p Q (.turn now crons lock spent) :=
  firing_off cfg lib (hp.mono fun _ => Call.offCrons_of_isAside) hQ

theorem firing_putJob {r : JobRecord} {key : String × Int}
    {Q : Except Error Unit → Firing → Prop} (hQ : ∀ a, Q a (.turn now crons (some key) true)) :
    wp (firing cfg lib zone).effect (putJob r) Q (.turn now crons (some key) false) := by
  refine ⟨⟨rfl, rfl⟩, fun a => ?_⟩
  cases a with
  | error e => exact hQ _
  | ok u => exact hQ _

/-- A push stores one job. -/
theorem firing_pushNew {job : Job} {t : Time} {key : String × Int}
    {Q : Except Error Job → Firing → Prop} (hQ : ∀ a b, Q a (.turn now crons (some key) b)) :
    wp (firing cfg lib zone).effect (pushNew cfg t job) Q (.turn now crons (some key) false) := by
  have hreg : ∀ name, (registerQueue name).Only Call.offCrons := fun _ => only_registerQueue trivial
  rw [pushNew]
  split
  · rw [pushScheduled, wp_bind]
    refine firing_putJob cfg lib fun a => ?_
    refine firing_off cfg lib ?_ fun a => hQ a _
    split
    · exact Prog.only_pure _
    · refine Prog.only_bind (only_request (c := .putDueItem .scheduled _ _) trivial) fun a => ?_
      split
      · exact Prog.only_pure _
      · refine Prog.only_bind (hreg _) fun a => ?_
        split <;> exact Prog.only_pure _
  · rw [pushAvailable, wp_bind]
    refine firing_putJob cfg lib fun a => ?_
    refine firing_off cfg lib ?_ fun a => hQ a _
    split
    · exact Prog.only_pure _
    · refine Prog.only_bind (hreg _) fun a => ?_
      split
      · exact Prog.only_pure _
      · refine Prog.only_bind
          ((only_sendToSQS cfg _).mono fun _ => Call.offCrons_of_isAside) fun a => ?_
        split <;> exact Prog.only_pure _

theorem firing_push {job : Job} {key : String × Int} {Q : Except Error Job → Firing → Prop}
    (hu : job.unique = none) (hQ : ∀ a b, Q a (.turn now crons (some key) b)) :
    wp (firing cfg lib zone).effect (push cfg job) Q (.turn now crons (some key) false) := by
  rw [push, wp_bind]
  refine firing_aside cfg lib only_timeNow fun t => ?_
  have hid : (assignID job).Only Call.offCrons := by
    rw [assignID]
    split
    · exact Prog.only_perform trivial
    · exact Prog.only_pure _
  rw [wp_bind]
  refine firing_off cfg lib hid fun id => ?_
  simp only [hu]
  exact firing_pushNew cfg lib hQ

theorem firing_putCron {r : CronRecord} {Q : Except Error Unit → Firing → Prop}
    (hr : ∃ cron ∈ crons, WritesBack cfg lib zone now cron r)
    (hQ : ∀ a, Q a (.turn now crons lock spent)) :
    wp (firing cfg lib zone).effect (putCron r) Q (.turn now crons lock spent) := by
  refine ⟨hr, fun a => ?_⟩
  cases a with
  | error e => exact hQ _
  | ok u => exact hQ _

theorem firing_stillRunning {Q : Except Error Bool → Firing → Prop}
    (hQ : ∀ a, Q a (.turn now crons lock spent)) :
    wp (firing cfg lib zone).effect (stillRunning record) Q (.turn now crons lock spent) := by
  refine firing_off cfg lib ?_ hQ
  rw [stillRunning]
  split
  · exact Prog.only_pure _
  · refine Prog.only_bind ?_ fun a => ?_
    · refine Prog.only_bind (Prog.only_perform trivial) fun a => ?_
      split <;> exact Prog.only_pure _
    · split
      · exact Prog.only_pure _
      · split
        · exact Prog.only_pure _
        · refine Prog.only_bind (only_getJob trivial) fun a => ?_
          split <;> exact Prog.only_pure _

theorem firing_skipRun {Q : Option Error → Firing → Prop} (hmem : record ∈ crons)
    (hQ : ∀ a, Q a (.turn now crons lock spent)) :
    wp (firing cfg lib zone).effect (skipRun cfg lib zone now record) Q
      (.turn now crons lock spent) := by
  rw [skipRun]
  cases hp : lib.parse record.expression with
  | error msg => exact hQ _
  | ok schedule =>
    simp only
    rw [wp_bind]
    refine firing_putCron cfg lib ⟨record, hmem, by rw [WritesBack, hp]⟩ fun a => ?_
    split <;> exact hQ _

theorem firing_finishRun {Q : Option Error → Firing → Prop} (hmem : record ∈ crons)
    (hQ : ∀ a, Q a (.turn now crons lock spent)) :
    wp (firing cfg lib zone).effect (finishRun cfg lib zone now record) Q
      (.turn now crons lock spent) := by
  rw [finishRun]
  cases hp : lib.parse record.expression with
  | error msg =>
    simp only
    rw [wp_bind]
    exact firing_putCron cfg lib ⟨record, hmem, by rw [WritesBack, hp]⟩ fun a => hQ _
  | ok schedule =>
    simp only
    rw [wp_bind]
    refine firing_putCron cfg lib ⟨record, hmem, by rw [WritesBack, hp]⟩ fun a => ?_
    split <;> exact hQ _

theorem firing_pushRun {key : String × Int} {Q : Option Error → Firing → Prop}
    (hmem : record ∈ crons) (hQ : ∀ a b, Q a (.turn now crons (some key) b)) :
    wp (firing cfg lib zone).effect (pushRun cfg lib zone now record) Q
      (.turn now crons (some key) false) := by
  rw [pushRun]
  split
  · exact hQ _ _
  · rename_i job hjob
    have hu : job.unique = none := by
      rw [cronJobOf] at hjob
      cases ht : record.jobTemplate with
      | empty => rw [ht] at hjob; cases hjob; rfl
      | invalid => rw [ht] at hjob; cases hjob
      | of t => rw [ht] at hjob; cases hjob; rfl
    rw [wp_ite]
    split
    · exact hQ _ _
    · rw [wp_bind]
      refine firing_push cfg lib hu fun a b => ?_
      split
      · exact hQ _ _
      · rw [wp_bind]
        refine firing_off cfg lib (only_request (c := .putCronInstanceItem _ _) trivial) fun a => ?_
        split
        · exact hQ _ _
        · exact firing_finishRun cfg lib hmem fun a => hQ a _

theorem firing_runLocked {key : String × Int} {Q : Option Error → Firing → Prop}
    (hmem : record ∈ crons) (hQ : ∀ a b, Q a (.turn now crons (some key) b)) :
    wp (firing cfg lib zone).effect (runLocked cfg lib zone now record) Q
      (.turn now crons (some key) false) := by
  rw [runLocked, wp_bind]
  refine firing_stillRunning cfg lib fun a => ?_
  split
  · exact hQ _ _
  · exact firing_skipRun cfg lib hmem fun a => hQ a _
  · exact firing_pushRun cfg lib hmem hQ

theorem firing_acquireCronLock {name : String} {ts : Int}
    {Q : Except Error Bool → Firing → Prop} (hl : LocksListed cfg lib crons name ts)
    (hok : Q (.ok true) (.turn now crons (some (name, ts)) false))
    (hno : ∀ a, a ≠ .ok true → Q a (.turn now crons none false)) :
    wp (firing cfg lib zone).effect (acquireCronLock name ts) Q (.turn now crons lock spent) := by
  rw [acquireCronLock, wp_bind]
  refine firing_aside cfg lib only_timeNow fun t => ?_
  rw [wp_bind, dynamo, wp_perform]
  refine ⟨hl, fun a => ?_⟩
  rcases a with e | u
  · cases e <;> exact hno _ nofun
  · exact hok

theorem firing_fireCron {Q : Option Error → Firing → Prop} (hmem : record ∈ crons)
    (hQ : ∀ a lock spent, Q a (.turn now crons lock spent)) :
    wp (firing cfg lib zone).effect (fireCron cfg lib zone now record) Q
      (.turn now crons lock spent) := by
  rw [fireCron, wp_ite]
  split
  · exact hQ _ _ _
  · split
    · exact hQ _ _ _
    · rename_i nextRun hnext
      rw [wp_ite]
      split
      · exact hQ _ _ _
      · rw [wp_bind]
        refine firing_acquireCronLock cfg lib ⟨record, hmem, rfl, nextRun, hnext, rfl⟩ ?_ ?_
        · exact firing_runLocked cfg lib hmem fun a b => hQ a _ b
        · intro a ha
          split
          · exact hQ _ _ _
          · exact hQ _ _ _
          · exact absurd rfl ha

theorem firing_fireAll (records : List CronRecord) (firstErr : Option Error)
    (hmem : ∀ r ∈ records, r ∈ crons) {Q : Option Error → Firing → Prop} (hQ : ∀ a s, Q a s) :
    wp (firing cfg lib zone).effect (fireAll cfg lib zone now records firstErr) Q
      (.turn now crons lock spent) := by
  induction records generalizing firstErr lock spent with
  | nil => exact hQ _ _
  | cons record records ih =>
    rw [fireAll, wp_bind]
    refine firing_fireCron cfg lib (hmem record List.mem_cons_self) fun a lock spent => ?_
    exact ih _ fun r hr => hmem r (List.mem_cons_of_mem _ hr)

theorem firing_fireCronJobs :
    (firing cfg lib zone).Conforms (CronOp.prog cfg lib (.fire zone)) .start := by
  rw [Monitor.Conforms, CronOp.prog, wp_bind, fireCronJobs, wp_bind, listCrons, request, wp_bind,
    dynamo, wp_perform]
  refine ⟨rfl, fun a => ?_⟩
  rcases a with e | crons
  · trivial
  · rw [wp_pure]
    simp only
    rw [wp_bind, timeNow, wp_perform]
    refine ⟨rfl, fun now => ?_⟩
    exact firing_fireAll cfg lib crons none (fun r hr => hr) fun _ _ => trivial

theorem registering_registerCron {cronJob : CronJob} :
    (registering cfg lib zone cronJob).Conforms (CronOp.prog cfg lib (.register zone cronJob))
      .start := by
  rw [Monitor.Conforms, CronOp.prog, wp_bind, registerCron]
  split
  · trivial
  · rename_i schedule hs
    rw [wp_bind, timeNow, wp_perform]
    refine ⟨rfl, fun now => ?_⟩
    simp only
    rw [wp_bind, putCron, request, wp_bind, dynamo, wp_perform]
    refine ⟨⟨schedule, hs, rfl⟩, fun a => ?_⟩
    rcases a with e | u <;> trivial

omit cfg lib in
theorem deleting_deleteCron {name : String} (cfg : Config) (lib : CronLib) :
    (deleting name).Conforms (CronOp.prog cfg lib (.delete name)) .start := by
  rw [Monitor.Conforms, CronOp.prog, wp_bind, deleteCron, wp_bind, getCron, wp_bind, dynamo,
    wp_perform]
  refine ⟨.inl rfl, fun a => ?_⟩
  rcases a with e | _ | cron
  · trivial
  · trivial
  · rw [wp_pure]
    simp only
    rw [wp_bind, deleteCronRecord, request, wp_bind, dynamo, wp_perform]
    refine ⟨.inr rfl, fun a => ?_⟩
    rcases a with e | u <;> trivial

theorem CronOp.conforms (op : CronOp) :
    (op.monitor cfg lib).Conforms (op.prog cfg lib) .start := by
  cases op with
  | fire zone => exact firing_fireCronJobs cfg lib
  | register zone cronJob => exact registering_registerCron cfg lib
  | delete name => exact deleting_deleteCron cfg lib

end

/-! ## One concrete cron -/

def hour : Time := 3600 * second

/-- The next nine o'clock in a zone that is `ahead` of the epoch's. -/
def nextNine (ahead t : Time) : Time :=
  ((t + ahead - 9 * hour) / (24 * hour) + 1) * (24 * hour) + 9 * hour - ahead

/-- How far a zone is ahead. -/
def zoneAhead (zone : String) : Time := if zone = "Asia/Tokyo" then 9 * hour else 0

/-- The library, for the one expression of the runs. -/
def demoLib : CronLib where
  parse := fun spec =>
    if spec = "0 9 * * *" then .ok ⟨fun zone => nextNine (zoneAhead zone)⟩
    else if spec = "CRON_TZ=Asia/Tokyo 0 9 * * *" then .ok ⟨fun _ => nextNine (9 * hour)⟩
    else .error "unexpected spec"
  loadLocation := fun name => if name = "Asia/Tokyo" then some name else none
  parseTimeFormat := fun _ => none
  marshalsTemplate := fun _ => true

/-- The instants of the runs, as text. -/
def cronInstants : List (String × Time) :=
  [("1970-01-01T00:00:00.000Z", 0), ("1970-01-02T00:00:00.000Z", 24 * hour),
    ("1970-01-02T09:00:00.000Z", 33 * hour), ("1970-01-03T00:00:00.000Z", 48 * hour)]

/-- The configuration of the runs. -/
def cronDemo : Config :=
  { demo with
    formatTime := fun t => ((cronInstants.find? fun e => e.2 = t).map (·.1)).getD ""
    parseRFC3339 := fun s => (cronInstants.find? fun e => e.1 = s).map (·.2) }

/-- A report at nine in Tokyo, as a client registers it. -/
def report : CronJob where
  name := "report"
  expression := "0 9 * * *"
  timezone := "Asia/Tokyo"
  jobTemplate := some { type := "report" }

/-- Its record on the first day. -/
def reportRecord : CronRecord where
  name := "report"
  expression := "0 9 * * *"
  timezone := "Asia/Tokyo"
  overlapPolicy := "allow"
  enabled := true
  jobTemplate := .of { type := "report" }
  createdAt := "1970-01-01T00:00:00.000Z"
  nextRunAt := "1970-01-02T00:00:00.000Z"
  queue := "default"

/-- A store with this cron only. -/
def reportWorld : World := { store := { crons := (∅ : Table CronRecord).insert "report" reportRecord } }

/-- What a process does once it has acquired the lock, at `t`. -/
def reportRun (t : Time) : List Choice :=
  [.tick t, .uuid "r1", .ok, .ok, .ok, .ok, .ok, .ok, .ok, .ok, .ok]

end OjsSqs
