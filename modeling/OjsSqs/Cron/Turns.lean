import OjsSqs.Cron.Processes

/-! # The turn of a cron

In its loop a run of `FireCronJobs` takes the listed crons one after the other.
The turn of a cron begins with its lock; then come the overlap check, the push,
the instance, and the record that is written back. The monitor of this module
follows a run turn by turn and keeps what the turn has read and stored. -/
namespace OjsSqs
open Calls

/-- Where the turn of a locked cron stands. -/
inductive CronTurn where
  /-- the cron's instance has not been read -/
  | checking
  /-- the instance is this job, which has not been read -/
  | found (jobID : String)
  /-- a job may be pushed -/
  | clear
  /-- the job is stored and not sent; the URL of its queue, once it is known -/
  | stored (record : JobRecord) (url : Option String)
  | sent (jobID : String)
  /-- the cron may be written back -/
  | closing

/-- The turn ends when the cron is written back. -/
def CronTurn.next : CronTurn → (c : Call) → Answer c → Option CronTurn
  | .checking, .dynamo (.getCronInstanceItem _), .ok jobID =>
    some (if jobID.getD "" = "" then .clear else .found (jobID.getD ""))
  | .checking, .dynamo (.getCronInstanceItem _), .error _ => some .closing
  | .checking, .proc .newUUIDv7, _ => some .clear
  | .found _, .dynamo (.getJobItem _), .ok (some job) =>
    some (if isTerminalState job.state then .clear else .closing)
  | .found _, .dynamo (.getJobItem _), _ => some .closing
  | .clear, .dynamo (.putJobItem record), .ok _ => some (.stored record none)
  | .stored record _, .proc (.lookupURL _), url => some (.stored record url)
  | .stored record _, .sqs (.createQueue _), .ok url => some (.stored record (some url))
  | .stored record _, .sqs (.sendMessage _ _), .ok _ => some (.sent record.id)
  | .sent _, .dynamo (.putCronInstanceItem _ _), .ok _ => some .closing
  | .closing, .dynamo (.putCronItem _), _ => none
  | turn, _, _ => some turn

/-- Where a run of `FireCronJobs` stands: before the scan, before it reads the
clock, and in the loop, with the crons it has listed, the lock it acquired last
and the turn of the locked cron. -/
inductive Round where
  | start
  | listed (crons : List CronRecord)
  | going (crons : List CronRecord) (turn : Option ((String × Int) × CronTurn))

def Round.next : Round → (c : Call) → Answer c → Round
  | .start, .dynamo .scanCrons, .ok crons => .listed crons
  | .listed crons, .proc .now, _ => .going crons none
  | .going crons _, .dynamo (.putCronLockItem name ts _), .ok _ =>
    .going crons (some ((name, ts), .checking))
  | .going crons _, .dynamo (.putCronLockItem _ _ _), .error _ => .going crons none
  | .going crons (some (key, turn)), c, a => .going crons ((turn.next c a).map (key, ·))
  | s, _, _ => s

section
variable (cfg : Config) (lib : CronLib)

/-- The calls of a run. It leaves a turn where it stands when it asks for the
next lock. -/
inductive Round.Permits : Round → Call → Prop
  | scan : Permits .start (.dynamo .scanCrons)
  | begin {crons : List CronRecord} : Permits (.listed crons) (.proc .now)
  | now {crons : List CronRecord} {turn : Option ((String × Int) × CronTurn)} :
      Permits (.going crons turn) (.proc .now)
  | lock {crons : List CronRecord} {turn : Option ((String × Int) × CronTurn)} {name : String}
      {ts ttl : Int} : LocksListed cfg lib crons name ts →
      Permits (.going crons turn) (.dynamo (.putCronLockItem name ts ttl))
  | check {crons : List CronRecord} {key : String × Int} :
      Permits (.going crons (some (key, .checking))) (.dynamo (.getCronInstanceItem key.1))
  | pass {crons : List CronRecord} {key : String × Int} {cron : CronRecord} :
      cron ∈ crons → cron.name = key.1 → cron.overlapPolicy ≠ "skip" →
      Permits (.going crons (some (key, .checking))) (.proc .newUUIDv7)
  | latest {crons : List CronRecord} {key : String × Int} {jobID : String} :
      Permits (.going crons (some (key, .found jobID))) (.dynamo (.getJobItem jobID))
  | draw {crons : List CronRecord} {key : String × Int} :
      Permits (.going crons (some (key, .clear))) (.proc .newUUIDv7)
  | store {crons : List CronRecord} {key : String × Int} {record : JobRecord} :
      record.state = .available → record.sqsReceiptHandle = none →
      Permits (.going crons (some (key, .clear))) (.dynamo (.putJobItem record))
  | register {crons : List CronRecord} {key : String × Int} {record : JobRecord}
      {url : Option String} {queue : String} :
      Permits (.going crons (some (key, .stored record url))) (.dynamo (.putQueueItem queue))
  | lookup {crons : List CronRecord} {key : String × Int} {record : JobRecord}
      {url : Option String} :
      Permits (.going crons (some (key, .stored record url))) (.proc (.lookupURL record.queue))
  | create {crons : List CronRecord} {key : String × Int} {record : JobRecord}
      {url : Option String} : Permits (.going crons (some (key, .stored record url)))
        (.sqs (.createQueue (sqsQueueName cfg record.queue)))
  | spawn {crons : List CronRecord} {key : String × Int} {record : JobRecord}
      {url : Option String} {queue main : String} :
      Permits (.going crons (some (key, .stored record url))) (.proc (.goEnsureDLQ queue main))
  | cache {crons : List CronRecord} {key : String × Int} {record : JobRecord} {url : String} :
      Permits (.going crons (some (key, .stored record (some url))))
        (.proc (.cacheURL record.queue url))
  | send {crons : List CronRecord} {key : String × Int} {job : Job} {url : String} :
      Permits (.going crons (some (key, .stored (jobToRecord job) (some url))))
        (.sqs (.sendMessage url (outMessage cfg job job)))
  | keep {crons : List CronRecord} {key : String × Int} {jobID : String} :
      Permits (.going crons (some (key, .sent jobID))) (.dynamo (.putCronInstanceItem key.1 jobID))
  | back {crons : List CronRecord} {key : String × Int} {cron record : CronRecord} :
      cron ∈ crons → cron.name = key.1 → record.name = key.1 →
      record.overlapPolicy = cron.overlapPolicy →
      Permits (.going crons (some (key, .closing))) (.dynamo (.putCronItem record))

/-- Follows one run of `FireCronJobs`, turn by turn. -/
def turning : Monitor Round Call Answer Unit where
  allow := Round.Permits cfg lib
  next := Round.next
  accept _ _ := True

end

/-! ## The program conforms -/

section
variable {cfg : Config} {lib : CronLib} {zone : String} {now : Time} {crons : List CronRecord}
  {record : CronRecord} {key : String × Int} {s : Option ((String × Int) × CronTurn)}

/-- A step that leaves the run where it is. -/
theorem turning_now {Q : Time → Round → Prop} (hQ : ∀ t, Q t (.going crons s)) :
    wp (turning cfg lib).effect timeNow Q (.going crons s) := by
  refine ⟨.now, fun t => ?_⟩
  rcases s with _ | ⟨key, turn⟩
  · exact hQ t
  · cases turn <;> exact hQ t

/-! ### A push -/

/-- A call for the job that is stored, which its queue's URL may come from. -/
theorem turning_getOrCreateQueueURL (job : JobRecord) {url : Option String}
    {Q : Except Error String → Round → Prop}
    (hok : ∀ u, Q (.ok u) (.going crons (some (key, .stored job (some u)))))
    (herr : ∀ e s, Q (.error e) (.going crons s)) :
    wp (turning cfg lib).effect (getOrCreateQueueURL cfg job.queue) Q
      (.going crons (some (key, .stored job url))) := by
  rw [getOrCreateQueueURL, wp_bind]
  refine ⟨.lookup, fun a => ?_⟩
  cases a with
  | some u => exact hok u
  | none =>
    refine ⟨.create, fun a => ?_⟩
    cases a with
    | error e => exact herr _ _
    | ok u => exact ⟨.spawn, fun _ => ⟨.cache, fun _ => hok u⟩⟩

theorem turning_sendToSQS {job : Job} {url : Option String}
    {Q : Except Error MessageId → Round → Prop}
    (hok : ∀ m, Q (.ok m) (.going crons (some (key, .sent job.id))))
    (herr : ∀ e s, Q (.error e) (.going crons s)) :
    wp (turning cfg lib).effect (sendToSQS cfg job) Q
      (.going crons (some (key, .stored (jobToRecord job) url))) := by
  rw [sendToSQS, wp_bind]
  refine turning_getOrCreateQueueURL (jobToRecord job) (fun u => ?_) fun e s => herr e s
  simp only
  cases he : encodeJob cfg job with
  | error e => exact herr e _
  | ok body =>
    rw [encodeJob_body he]
    refine ⟨.send, fun a => ?_⟩
    cases a with
    | error e => exact herr _ _
    | ok m => exact hok m

theorem turning_pushAvailable {job : Job} {t : Time} {Q : Except Error Job → Round → Prop}
    (hok : ∀ job, Q (.ok job) (.going crons (some (key, .sent job.id))))
    (herr : ∀ e s, Q (.error e) (.going crons s)) :
    wp (turning cfg lib).effect (pushAvailable cfg t job) Q
      (.going crons (some (key, .clear))) := by
  rw [pushAvailable]
  simp only
  generalize hj : ({ job with state := .available, enqueuedAt := cfg.formatTime t } : Job) = j
  have hst : j.state = .available := by rw [← hj]
  rw [wp_bind, putJob, request, wp_bind]
  refine ⟨.store hst rfl, fun a => ?_⟩
  cases a with
  | error e => exact herr _ _
  | ok _ =>
    have hsend : ∀ m : Except Error MessageId → M (Except Error Job),
        (∀ id, m (.ok id) = return .ok j) → (∀ e, ∃ e', m (.error e) = return .error e') →
        wp (turning cfg lib).effect (sendToSQS cfg j >>= m) Q
          (.going crons (some (key, .stored (jobToRecord j) none))) := by
      intro m hm hm'
      rw [wp_bind]
      refine turning_sendToSQS (fun id => ?_) fun e s => ?_
      · rw [hm]
        exact hok j
      · obtain ⟨e', he'⟩ := hm' e
        rw [he']
        exact herr e' s
    show wp (turning cfg lib).effect _ Q (.going crons (some (key, .stored (jobToRecord j) none)))
    rw [wp_bind, registerQueue, wp_bind]
    refine ⟨.register, fun a => ?_⟩
    rcases a with e | _
    · cases e with
      | conditionalCheckFailed => exact hsend _ (fun _ => rfl) fun _ => ⟨_, rfl⟩
      | _ => exact herr _ _
    · exact hsend _ (fun _ => rfl) fun _ => ⟨_, rfl⟩

/-- The job of a run has no unique policy and no instant of its own. -/
theorem turning_push {job : Job} (hid : job.id = "") (hu : job.unique = none)
    (hs : job.scheduledAt = "") {Q : Except Error Job → Round → Prop}
    (hok : ∀ job, Q (.ok job) (.going crons (some (key, .sent job.id))))
    (herr : ∀ e s, Q (.error e) (.going crons s)) (hclear : s = some (key, .clear) ∨
      s = some (key, .checking) ∧ record ∈ crons ∧ record.name = key.1 ∧
        record.overlapPolicy ≠ "skip") :
    wp (turning cfg lib).effect (push cfg job) Q (.going crons s) := by
  rw [push, wp_bind]
  refine turning_now fun t => ?_
  have hnew : ∀ id, wp (turning cfg lib).effect
      (pushNew cfg t { job with id := id, createdAt := cfg.formatTime t, attempt := 0 }) Q
      (.going crons (some (key, .clear))) := by
    intro id
    have hnow : futureInstant cfg t
        { job with id := id, createdAt := cfg.formatTime t, attempt := 0 } = none := if_pos hs
    rw [pushNew, hnow]
    exact turning_pushAvailable hok herr
  rw [wp_bind, assignID, if_pos hid]
  simp only [hu] at hnew ⊢
  rcases hclear with rfl | ⟨rfl, hmem, hname, hpolicy⟩
  · exact ⟨.draw, hnew⟩
  · exact ⟨.pass hmem hname hpolicy, hnew⟩

/-! ### A turn -/

theorem turning_putCron {r : CronRecord} (hmem : record ∈ crons) (hname : record.name = key.1)
    (hr : r.name = record.name) (hpolicy : r.overlapPolicy = record.overlapPolicy)
    {Q : Except Error Unit → Round → Prop} (hQ : ∀ a, Q a (.going crons none)) :
    wp (turning cfg lib).effect (putCron r) Q (.going crons (some (key, .closing))) := by
  rw [putCron, request, wp_bind]
  refine ⟨.back hmem hname (hr.trans hname) hpolicy, fun a => ?_⟩
  cases a <;> exact hQ _

theorem turning_skipRun {Q : Option Error → Round → Prop} (hmem : record ∈ crons)
    (hname : record.name = key.1) (hQ : ∀ a s, Q a (.going crons s)) :
    wp (turning cfg lib).effect (skipRun cfg lib zone now record) Q
      (.going crons (some (key, .closing))) := by
  rw [skipRun]
  split
  · exact hQ _ _
  · rename_i schedule _
    rw [wp_bind]
    refine turning_putCron (r := record.ran cfg schedule zone now) hmem hname rfl rfl fun a => ?_
    cases a <;> exact hQ _ _

theorem turning_finishRun {Q : Option Error → Round → Prop} (hmem : record ∈ crons)
    (hname : record.name = key.1) (hQ : ∀ a s, Q a (.going crons s)) :
    wp (turning cfg lib).effect (finishRun cfg lib zone now record) Q
      (.going crons (some (key, .closing))) := by
  rw [finishRun]
  split
  · rw [wp_bind]
    exact turning_putCron (r := { record with lastRunAt := cfg.formatTime now }) hmem hname rfl rfl
      fun _ => hQ _ _
  · rename_i schedule _
    rw [wp_bind]
    refine turning_putCron (r := record.ran cfg schedule zone now) hmem hname rfl rfl fun a => ?_
    cases a <;> exact hQ _ _

theorem cronJobOf_plain {job : Job} (h : cronJobOf record = .ok job) :
    job.id = "" ∧ job.unique = none ∧ job.scheduledAt = "" := by
  rw [cronJobOf] at h
  split at h <;> cases h <;> exact ⟨rfl, rfl, rfl⟩

theorem turning_pushRun {Q : Option Error → Round → Prop} (hmem : record ∈ crons)
    (hname : record.name = key.1) (hQ : ∀ a s, Q a (.going crons s))
    (hclear : s = some (key, .clear) ∨ s = some (key, .checking) ∧ record.overlapPolicy ≠ "skip") :
    wp (turning cfg lib).effect (pushRun cfg lib zone now record) Q (.going crons s) := by
  rw [pushRun]
  split
  · exact hQ _ _
  · rename_i job hjob
    obtain ⟨hid, hu, hs⟩ := cronJobOf_plain hjob
    rw [wp_ite]
    split
    · exact hQ _ _
    · rw [wp_bind]
      refine turning_push hid hu hs (fun created => ?_) (fun _ s => hQ _ s)
        (hclear.imp_right fun h => ⟨h.1, hmem, hname, h.2⟩)
      simp only
      rw [wp_bind, setCronInstance, request, wp_bind, hname]
      refine ⟨.keep, fun a => ?_⟩
      cases a with
      | error e => exact hQ _ _
      | ok _ => exact turning_finishRun hmem hname hQ

/-- After the check nothing stands against a push, or the run is skipped. -/
theorem turning_stillRunning {Q : Except Error Bool → Round → Prop} (hname : record.name = key.1)
    (herr : ∀ e s, Q (.error e) (.going crons s))
    (hskip : Q (.ok true) (.going crons (some (key, .closing))))
    (hpush : ∀ s, s = some (key, .clear) ∨
      s = some (key, .checking) ∧ record.overlapPolicy ≠ "skip" → Q (.ok false) (.going crons s)) :
    wp (turning cfg lib).effect (stillRunning record) Q
      (.going crons (some (key, .checking))) := by
  rw [stillRunning, wp_ite]
  split
  · exact hpush _ (.inr ⟨rfl, ‹_›⟩)
  · rw [wp_bind, getCronInstance, wp_bind, hname]
    refine ⟨.check, fun a => ?_⟩
    rcases a with e | jobID
    · exact herr _ _
    · show wp (turning cfg lib).effect _ Q (.going crons (some (key,
        if jobID.getD "" = "" then .clear else .found (jobID.getD ""))))
      rw [wp_ite]
      split
      · exact hpush _ (.inl rfl)
      · rw [wp_bind, getJob, wp_bind]
        refine ⟨.latest, fun a => ?_⟩
        rcases a with e | _ | job
        · exact herr _ _
        · exact herr _ _
        · show Q (.ok !(isTerminalState job.state)) (.going crons (some (key,
            if isTerminalState job.state then .clear else .closing)))
          cases isTerminalState job.state with
          | true => exact hpush _ (.inl rfl)
          | false => exact hskip

theorem turning_runLocked {Q : Option Error → Round → Prop} (hmem : record ∈ crons)
    (hname : record.name = key.1) (hQ : ∀ a s, Q a (.going crons s)) :
    wp (turning cfg lib).effect (runLocked cfg lib zone now record) Q
      (.going crons (some (key, .checking))) := by
  rw [runLocked, wp_bind]
  refine turning_stillRunning hname (fun _ s => hQ _ s) (turning_skipRun hmem hname hQ) ?_
  exact fun s hs => turning_pushRun hmem hname hQ hs

/-! ### The loop -/

theorem turning_fireCron {Q : Option Error → Round → Prop} (hmem : record ∈ crons)
    (hQ : ∀ a s, Q a (.going crons s)) :
    wp (turning cfg lib).effect (fireCron cfg lib zone now record) Q (.going crons s) := by
  rw [fireCron, wp_ite]
  split
  · exact hQ _ _
  · split
    · exact hQ _ _
    · rename_i nextRun hnext
      rw [wp_ite]
      split
      · exact hQ _ _
      · rw [wp_bind, acquireCronLock, wp_bind]
        refine turning_now fun t => ?_
        rw [wp_bind]
        refine ⟨.lock ⟨record, hmem, rfl, nextRun, hnext, rfl⟩, fun a => ?_⟩
        rcases a with e | _
        · cases e <;> exact hQ _ _
        · show wp (turning cfg lib).effect _ Q
            (.going crons (some ((record.name, nextRun.unix), .checking)))
          exact turning_runLocked hmem rfl hQ

theorem turning_fireAll (records : List CronRecord) (firstErr : Option Error)
    (hmem : ∀ r ∈ records, r ∈ crons) {Q : Option Error → Round → Prop} (hQ : ∀ a s, Q a s) :
    wp (turning cfg lib).effect (fireAll cfg lib zone now records firstErr) Q (.going crons s) := by
  induction records generalizing firstErr s with
  | nil => exact hQ _ _
  | cons record records ih =>
    rw [fireAll, wp_bind]
    refine turning_fireCron (hmem record List.mem_cons_self) fun a s => ?_
    exact ih _ fun r hr => hmem r (List.mem_cons_of_mem _ hr)

theorem turning_fireCronJobs :
    (turning cfg lib).Conforms (CronOp.prog cfg lib (.fire zone)) .start := by
  rw [Monitor.Conforms, CronOp.prog, wp_bind, fireCronJobs, wp_bind, listCrons, request, wp_bind]
  refine ⟨.scan, fun a => ?_⟩
  rcases a with e | crons
  · trivial
  · refine ⟨.begin, fun now => ?_⟩
    exact turning_fireAll crons none (fun r hr => hr) fun _ _ => trivial

end
end OjsSqs
