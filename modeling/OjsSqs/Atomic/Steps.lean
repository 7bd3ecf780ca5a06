import OjsSqs.Atomic.Rules

/-! # Runs of atomic steps

An operation that runs alone, from its first call to its return, is one step.
Between the operations the rest of the system moves: the visibility timeout of
a message ends, an `ensureDLQ` goroutine runs, time passes, and DynamoDB
deletes a unique key whose time to live is over. Operations may come in any
order and any number; the identifiers of pushed jobs are never reused. -/
namespace OjsSqs
open Calls

inductive Op where
  | push (job : Job)
  | pushBatch (jobs : List Job)
  | fetch (fuel : Nat) (queues : List String) (count : Int) (workerID : String)
      (visibilityTimeoutMs : Int)
  | ack (jobID : String) (result : Option String)
  | nack (jobID : String) (jobErr : Option JobError) (requeue : Bool)
  | cancel (jobID : String)
  | promoteScheduled
  | promoteRetries
  | retryDeadLetter (jobID : String)
  | deleteDeadLetter (jobID : String)

namespace Op

abbrev Result : Op → Type
  | .push _ => Except Error Job
  | .pushBatch _ => Except Error (List Job)
  | .fetch _ _ _ _ _ => Option (List Job)
  | .ack _ _ => Except Error AckResponse
  | .nack _ _ _ => Except Error NackResponse
  | .cancel _ => Except Error Job
  | .promoteScheduled | .promoteRetries => Option Error
  | .retryDeadLetter _ => Except Error Job
  | .deleteDeadLetter _ => Except Error Unit

def prog (cfg : Config) : (o : Op) → M o.Result
  | .push job => OjsSqs.push cfg job
  | .pushBatch jobs => OjsSqs.pushBatch cfg jobs
  | .fetch fuel queues count workerID vis => OjsSqs.fetch cfg fuel queues count workerID vis
  | .ack jobID result => OjsSqs.ack cfg jobID result
  | .nack jobID jobErr requeue => OjsSqs.nack cfg jobID jobErr requeue
  | .cancel jobID => OjsSqs.cancel cfg jobID
  | .promoteScheduled => OjsSqs.promoteScheduled cfg
  | .promoteRetries => OjsSqs.promoteRetries cfg
  | .retryDeadLetter jobID => OjsSqs.retryDeadLetter cfg jobID
  | .deleteDeadLetter jobID => OjsSqs.deleteDeadLetter jobID

/-- The operation has returned: a fetch was given enough receives. -/
def done : (o : Op) → o.Result → Bool
  | .fetch _ _ _ _ _, jobs => jobs.isSome
  | _, _ => true

/-- The jobs an operation brings in. -/
def newJobs : Op → List Job
  | .push job => [job]
  | .pushBatch jobs => jobs
  | _ => []

/-- The identifiers clients chose for them. -/
def newIDs (o : Op) : List String := (o.newJobs.map (·.id)).filter (· ≠ "")

/-- A client never uses an identifier again. -/
def Fresh (o : Op) (w : World) : Prop :=
  o.newIDs.Nodup ∧ ∀ id ∈ o.newIDs, w.store.jobs.lookup id = none

instance (o : Op) (w : World) : Decidable (o.Fresh w) := inferInstanceAs (Decidable (_ ∧ _))

end Op

/-- The identifiers a client has chosen are not handed out as new ones. -/
def Rules.reserving (ρ : Rules) (ids : List String) : Rules := { ρ with reserved := ids }

inductive Label where
  | op (o : Op) (a : o.Result)
  | expireVisibility (id : MessageId)
  | ensureDLQ (queue url : String)
  | tick (t : Time)
  | expireKey (fingerprint : String)

/-- A step of an operation, not of the environment. -/
def Label.isOp : Label → Bool
  | .op _ _ => true
  | _ => false

/-- One step of the system. -/
inductive Step (cfg : Config) (ρ : Rules) : World → Label → World → Prop
  | op {w w' : World} (o : Op) (a : o.Result) : o.Fresh w → o.done a = true →
      Runs (ρ.reserving o.newIDs).env (o.prog cfg) w a w' → Step cfg ρ w (.op o a) w'
  | expireVisibility {w : World} (id : MessageId) :
      Step cfg ρ w (.expireVisibility id) (w.setSqs (w.sqs.expireVisibility id))
  | ensureDLQ {w w' : World} (queue url : String) : (queue, url) ∈ w.background →
      Runs ρ.env (OjsSqs.ensureDLQ cfg queue url)
        { w with background := w.background.erase (queue, url) } () w' →
      Step cfg ρ w (.ensureDLQ queue url) w'
  | tick {w : World} (t : Time) : w.clock ≤ t → Step cfg ρ w (.tick t) (w.setClock t)
  | expireKey {w : World} (fingerprint : String) (item : UniqueItem) :
      w.store.uniqueKeys.lookup fingerprint = some item → item.ttl < w.clock.unix →
      Step cfg ρ w (.expireKey fingerprint)
        (w.setUniqueKeys (w.store.uniqueKeys.erase fingerprint))

/-- The state of a system that has just been set up, at some instant. -/
def World.start (t : Time) : World := { clock := t }

/-- The states of all runs whose steps meet the condition `ok`. -/
inductive Reachable (cfg : Config) (ρ : Rules) (ok : World → Label → Prop) : World → Prop
  | start (t : Time) : Reachable cfg ρ ok (.start t)
  | step {w w' : World} {l : Label} :
      Reachable cfg ρ ok w → ok w l → Step cfg ρ w l w' → Reachable cfg ρ ok w'

/-- No condition on the steps. -/
def anyLabel : World → Label → Prop := fun _ _ => True

/-- What holds at the start and is kept by every step holds in every state of
every run. -/
theorem Reachable.invariant {cfg : Config} {ρ : Rules} {ok : World → Label → Prop}
    {I : World → Prop} {w : World} (h : Reachable cfg ρ ok w) (h0 : ∀ t, I (.start t))
    (hstep : ∀ w l w', I w → ok w l → Step cfg ρ w l w' → I w') : I w := by
  induction h with
  | start t => exact h0 t
  | step _ hok hs ih => exact hstep _ _ _ ih hok hs

/-! ## Scripts -/

/-- A step with the choices the environment makes in it. -/
inductive Act where
  | op (o : Op) (choices : List Choice)
  | expireVisibility (id : MessageId)
  | ensureDLQ (queue url : String) (choices : List Choice)
  | tick (t : Time)
  | expireKey (fingerprint : String)

namespace Act

def run (cfg : Config) (ρ : Rules) : Act → World → Option (Label × World)
  | .op o choices, w =>
    if o.Fresh w then
      match script (ρ.reserving o.newIDs).act choices (o.prog cfg) w with
      | some (a, w') => if o.done a then some (.op o a, w') else none
      | none => none
    else none
  | .expireVisibility id, w => some (.expireVisibility id, w.setSqs (w.sqs.expireVisibility id))
  | .ensureDLQ queue url choices, w =>
    if (queue, url) ∈ w.background then
      (script ρ.act choices (OjsSqs.ensureDLQ cfg queue url)
        { w with background := w.background.erase (queue, url) }).map
          fun (_, w') => (.ensureDLQ queue url, w')
    else none
  | .tick t, w => if w.clock ≤ t then some (.tick t, w.setClock t) else none
  | .expireKey fingerprint, w =>
    match w.store.uniqueKeys.lookup fingerprint with
    | some item =>
      if item.ttl < w.clock.unix then
        some (.expireKey fingerprint, w.setUniqueKeys (w.store.uniqueKeys.erase fingerprint))
      else none
    | none => none

theorem run_step {cfg : Config} {ρ : Rules} {x : Act} {w w' : World} {l : Label}
    (h : x.run cfg ρ w = some (l, w')) : Step cfg ρ w l w' := by
  cases x with
  | op o choices =>
    simp only [run] at h
    split at h
    · rename_i hf
      split at h
      · rename_i a w₁ hs
        obtain ⟨hd, h⟩ := Option.ite_none_right_eq_some.mp h
        cases h
        exact .op o a hf hd (script_runs choices hs)
      · cases h
    · cases h
  | expireVisibility id =>
    cases h
    exact .expireVisibility id
  | ensureDLQ queue url choices =>
    obtain ⟨hb, h⟩ := Option.ite_none_right_eq_some.mp h
    obtain ⟨⟨u, w₁⟩, hs, h⟩ := Option.map_eq_some_iff.mp h
    cases h
    exact .ensureDLQ queue url hb (script_runs choices hs)
  | tick t =>
    obtain ⟨ht, h⟩ := Option.ite_none_right_eq_some.mp h
    cases h
    exact .tick t ht
  | expireKey fingerprint =>
    simp only [run] at h
    split at h
    · rename_i item hi
      obtain ⟨ht, h⟩ := Option.ite_none_right_eq_some.mp h
      cases h
      exact .expireKey fingerprint item hi ht
    · cases h

/-- The state after a list of steps. -/
def play (cfg : Config) (ρ : Rules) : List Act → World → Option World
  | [], w => some w
  | x :: xs, w => match x.run cfg ρ w with
    | some (_, w') => play cfg ρ xs w'
    | none => none

theorem play_reachable {cfg : Config} {ρ : Rules} {ok : World → Label → Prop} {xs : List Act}
    {w w' : World} (hw : Reachable cfg ρ ok w) (h : play cfg ρ xs w = some w')
    (hok : ∀ x ∈ xs, ∀ w l w', x.run cfg ρ w = some (l, w') → ok w l) :
    Reachable cfg ρ ok w' := by
  induction xs generalizing w with
  | nil =>
    cases h
    exact hw
  | cons x xs ih =>
    simp only [play] at h
    split at h
    · rename_i l w₁ hr
      refine ih (.step hw (hok x List.mem_cons_self w l w₁ hr) (run_step hr)) h ?_
      exact fun y hy => hok y (List.mem_cons_of_mem _ hy)
    · cases h

/-- The label of an operation's step is the operation, with its result. -/
theorem run_op {cfg : Config} {ρ : Rules} {o : Op} {choices : List Choice} {w w' : World}
    {l : Label} (h : (Act.op o choices).run cfg ρ w = some (l, w')) :
    ∃ a, l = .op o a ∧ script (ρ.reserving o.newIDs).act choices (o.prog cfg) w = some (a, w') := by
  simp only [run] at h
  split at h
  · split at h
    · rename_i a w₁ hs
      obtain ⟨_, h⟩ := Option.ite_none_right_eq_some.mp h
      cases h
      exact ⟨a, rfl, hs⟩
    · cases h
  · cases h

theorem run_ensureDLQ {cfg : Config} {ρ : Rules} {queue url : String} {choices : List Choice}
    {w w' : World} {l : Label} (h : (Act.ensureDLQ queue url choices).run cfg ρ w = some (l, w')) :
    l = .ensureDLQ queue url := by
  obtain ⟨_, h⟩ := Option.ite_none_right_eq_some.mp h
  obtain ⟨_, _, h⟩ := Option.map_eq_some_iff.mp h
  cases h
  rfl

end Act

/-! ## One concrete system

A configuration that can be run: clock, parser, encoder and hash answer as the
real ones do for the few values the runs below use. It instantiates the
arbitrary configuration of the theorems where one run has to be exhibited. -/

/-- One second, in nanoseconds. -/
def second : Time := 1000000000

/-- The first seconds of the epoch, as `FormatTime` writes them. -/
def demoTime (t : Time) : String :=
  if t = 0 then "1970-01-01T00:00:00.000Z"
  else if t = second then "1970-01-01T00:00:01.000Z"
  else if t = 2 * second then "1970-01-01T00:00:02.000Z"
  else "1970-01-01T00:00:03.000Z"

def demo : Config where
  formatTime := demoTime
  parseRFC3339 := fun s =>
    if s = "1970-01-01T00:00:01Z" then some second
    else if s = "1970-01-01T00:00:02Z" then some (2 * second)
    else none
  parseISO8601Duration := fun s =>
    if s = "PT1H" then some (3600 * second)
    else if s = "PT1S" then some second
    else none
  calculateBackoff := fun _ attempt => attempt * second
  validateEnqueueRequest := fun _ _ => none
  -- the digest of the one text the runs hash
  sha256Hex := fun s => if s = "args:[]type:email" then
    "de65bdd1a53cef6dfc733c23a9202ff3552e8cec5301889b1d9a270e825db0d7" else s
  regexpMatch := fun _ => none
  marshalSize := fun _ => some 240
  defaultVisibilityTimeoutMs := 30000
  queuePrefix := "ojs"
  useFIFO := false

/-- The job the runs push. -/
def demoJob : Job := { id := "j1", type := "email", queue := "default", args := some "[]" }

/-- The runs' steps: a push to a queue that is not open yet, a fetch that gets
the message `0`, one that finds nothing, and a cancel of a job with no stored
handle. -/
def pushDemo : Act := .op (.push demoJob) [.tick 0, .ok, .ok, .ok, .ok, .ok, .ok, .ok]
def fetchDemo : Act := .op (.fetch 1 ["default"] 1 "w1" 0)
  [.tick 0, .ok, .ok, .deliver [0], .ok, .ok, .ok]
def fetchNothing : Act := .op (.fetch 1 ["default"] 1 "w1" 0) [.tick 0, .ok, .ok, .deliver [0]]
def cancelDemo : Act := .op (.cancel "j1") [.ok, .tick 0, .ok, .ok, .ok, .ok]

/-- The fetched job fails, and a second later it is promoted. -/
def failDemo : Act := .op (.nack "j1" none false) [.ok, .tick 0, .ok, .ok, .ok, .ok, .ok, .ok]
def promoteDemo : Act := .op .promoteRetries
  [.tick second, .page ["j1"], .ok, .ok, .tick second, .ok, .ok, .ok, .ok]

/-- The state of the runs' job. -/
def demoState (w : World) : Option JobState := (w.store.jobs.lookup "j1").map (·.state)

end OjsSqs
