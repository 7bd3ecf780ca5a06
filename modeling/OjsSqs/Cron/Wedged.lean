import OjsSqs.Calls.Prog
import OjsSqs.Faults.Rules
import OjsSqs.Cron.Registrations

/-! # Wedged crons

A run that has acquired the lock of a cron and leaves its next run where it
was has wedged it: the next attempt at the same instant finds the lock taken.
After the lock there are many ways out, and only the two that write the record
move the next run. A ghost keeps what each cron was given in its turn: with it
the crons that a run does not wedge are known exactly. -/
namespace OjsSqs
open Calls

/-- The turn of a cron, from the moment its lock was acquired: the world as it
was, the clock and the identifier its push was given, and whether one of its
calls has failed. -/
structure Turn where
  start : World
  pushed : Option (Time × String) := none
  hurt : Bool := false

/-- What is noted of a run: the clock it read first and last, and the turns of
the crons it has locked. -/
structure Watch extends TurnLog Turn where
  now : Option Time := none
  clock : Time := 0

def Watch.inTurn (f : Turn → Turn) (x : Watch) : Watch := { x with toTurnLog := x.toTurnLog.inTurn f }

def Watch.note : Note World Call Answer Watch
  | .proc .now, t, _, _, x => { x with now := x.now.or (some t), clock := t }
  | .proc .newUUIDv7, id, _, _, x => x.inTurn fun T => { T with pushed := some (x.clock, id) }
  | .dynamo (.putCronLockItem name _ _), .ok _, _, w', x =>
    { x with toTurnLog := x.enter name { start := w' } }
  | .dynamo (.putCronLockItem _ _ _), .error _, _, _, x => { x with toTurnLog := x.leave }
  | c, r, _, _, x => if callFailed c r then x.inTurn fun T => { T with hurt := true } else x

/-- The calls of one run, with what is noted of them. -/
def Rules.watching (ρ : Rules) : Env (World × Watch) Call Answer := ρ.env.withGhost Watch.note

section
variable (cfg : Config) (lib : CronLib)

/-- The stored text says an instant after `now`. -/
def Ahead (now : Time) (nextRunAt : String) : Prop :=
  ∃ t, nextRunOf cfg lib nextRunAt = some t ∧ now < t

/-- The stored next run of the cron lies after `now`. -/
def Unwedged (now : Time) (w : World) (name : String) : Prop :=
  ∃ r, w.store.crons.lookup name = some r ∧ Ahead cfg lib now r.nextRunAt

/-- The expression parses, and its next run after `now` reads back as later. -/
def Advances (zone : String) (now : Time) (record : CronRecord) : Prop :=
  ∃ schedule, lib.parse record.expression = .ok schedule ∧
    Ahead cfg lib now (cfg.formatTime (schedule.next zone now))

/-- Whether the cron's policy skips a run in `w`. It does not say when the job
of the latest run is not stored. -/
def overlapIn (w : World) (record : CronRecord) : Option Bool :=
  if record.overlapPolicy ≠ "skip" then some false
  else
    let instanceJobID := (w.store.cronInstances.lookup record.name).getD ""
    if instanceJobID = "" then some false
    else (w.store.jobs.lookup instanceJobID).map fun job => !(isTerminalState job.state)

/-- The job as a push at `t` stores and sends it. -/
def pushedJob (job : Job) (t : Time) (id : String) : Job :=
  { job with
    id := id, createdAt := cfg.formatTime t, attempt := 0, state := .available
    enqueuedAt := cfg.formatTime t }

/-- The template has a type, and its job fits into a message. -/
def Sendable (record : CronRecord) (pushed : Option (Time × String)) : Prop :=
  ∃ job t id, cronJobOf record = .ok job ∧ job.type ≠ "" ∧ pushed = some (t, id) ∧
    encodes cfg (pushedJob cfg job t id) = true

/-- Nothing stands in the way of a cron's turn: no call of it has failed, its
expression gives a later run, and unless the run is skipped its job can be
sent. -/
def Clear (zone : String) (now : Time) (record : CronRecord) (T : Turn) : Prop :=
  T.hurt = false ∧ Advances cfg lib zone now record ∧
    (overlapIn T.start record = some true ∨
      overlapIn T.start record = some false ∧ Sendable cfg record T.pushed)

end

/-! ## What is noted of a call -/

/-- A call of which only a failure is noted. -/
def Call.isPlain : Call → Bool
  | .proc .now | .proc .newUUIDv7 | .dynamo (.putCronLockItem _ _ _) => false
  | _ => true

theorem Watch.note_plain {c : Call} (hc : c.isPlain) (r : Answer c) (w w' : World) (x : Watch) :
    x.note c r w w' = if callFailed c r then x.inTurn fun T => { T with hurt := true } else x := by
  cases c with
  | dynamo d => cases d <;> first | rfl | cases hc
  | sqs c => rfl
  | proc c => cases c <;> first | rfl | cases hc

/-! ## A turn -/

/-- In the turn `T` of the cron `name`, since the state `x₀`: the crons have
not been written, and of the ghost only the turn has changed. -/
structure Going (x₀ : World × Watch) (name : String) (T : Turn) (x : World × Watch) : Prop where
  now : x.2.now = x₀.2.now
  log : TurnLog.At x₀.2.toTurnLog name T x.2.toTurnLog
  crons : x.1.store.crons = x₀.1.store.crons

section
variable {ρ : Rules} {x₀ x : World × Watch} {name : String} {T : Turn}

theorem Going.inTurn (h : Going x₀ name T x) (f : Turn → Turn) {w' : World}
    (hw : w'.store.crons = x.1.store.crons) :
    Going x₀ name (f T) (w', x.2.inTurn f) :=
  ⟨h.now, h.log.inTurn f, hw.trans h.crons⟩

theorem Going.move (h : Going x₀ name T x) {w' : World} (hw : w'.store.crons = x.1.store.crons) :
    Going x₀ name T (w', x.2) :=
  ⟨h.now, h.log, hw.trans h.crons⟩

/-- A plain call either fails, which hurts the turn, or is carried out. -/
theorem wp_dynamo_going (h : Going x₀ name T x) {c : DynamoCall} (hc : c.isPaged = false)
    (hp : (Call.dynamo c).isPlain) (hcrons : (x.1.store.run c).2.crons = x.1.store.crons)
    {Q : Except AwsError c.Answer → World × Watch → Prop}
    (hfail : ∀ msg x', Going x₀ name { T with hurt := true } x' → Q (.error (.other msg)) x')
    (hrun : ∀ x', x'.1 = x.1.setStore (x.1.store.run c).2 → Going x₀ name T x' →
      Q (x.1.store.run c).1 x') :
    wp ρ.watching.every (dynamo c) Q x := by
  refine wp_ghost (wp_dynamo_faulty hc (fun msg => ?_) ?_)
  · rw [Watch.note_plain hp]
    exact hfail msg _ (h.inTurn (fun T => { T with hurt := true }) rfl)
  · rw [Watch.note_plain hp, Store.run_not_failed]
    exact hrun _ rfl (h.move hcrons)

theorem wp_sqs_going (h : Going x₀ name T x) {c : SqsCall} (hc : c.isReceive = false)
    (hb : ∀ url entries, c ≠ .sendMessageBatch url entries)
    {Q : Except AwsError c.Answer → World × Watch → Prop}
    (hfail : ∀ msg x', Going x₀ name { T with hurt := true } x' → Q (.error (.other msg)) x')
    (hrun : ∀ x', Going x₀ name T x' → Q (c.run x.1.sqs).1 x') :
    wp ρ.watching.every (sqs c) Q x := by
  refine wp_ghost (wp_sqs_faulty hc hb (fun msg => ?_) ?_)
  · rw [Watch.note_plain rfl]
    exact hfail msg _ (h.inTurn (fun T => { T with hurt := true }) rfl)
  · rw [Watch.note_plain rfl, SqsCall.run_not_failed]
    exact hrun _ (h.move rfl)

theorem wp_proc_going (h : Going x₀ name T x) {c : ProcCall} (hp : (Call.proc c).isPlain)
    {Q : c.Answer → World × Watch → Prop} (hrun : ∀ a x', Going x₀ name T x' → Q a x') :
    wp ρ.watching.every (proc c) Q x := by
  refine wp_ghost_every fun a w' he => ?_
  rw [Watch.note_plain hp]
  exact hrun a _ (h.move (congrArg Store.crons (Rules.env_proc_store he)))

theorem wp_timeNow_going (h : Going x₀ name T x) (hnow : x₀.2.now.isSome)
    {Q : Time → World × Watch → Prop}
    (hrun : ∀ t x', x'.2.clock = t → Going x₀ name T x' → Q t x') :
    wp ρ.watching.every timeNow Q x := by
  refine wp_ghost_every fun t w' he => ?_
  have hor : x.2.now.or (some t) = x₀.2.now := by
    obtain ⟨now, hn⟩ := Option.isSome_iff_exists.mp hnow
    rw [h.now, hn, Option.some_or]
  exact hrun t _ rfl
    ⟨hor, h.log, (congrArg Store.crons (Rules.env_proc_store he)).trans h.crons⟩

theorem wp_newUUIDv7_going (h : Going x₀ name T x) {Q : String → World × Watch → Prop}
    (hrun : ∀ id x', Going x₀ name { T with pushed := some (x.2.clock, id) } x' → Q id x') :
    wp ρ.watching.every (proc .newUUIDv7) Q x := by
  refine wp_ghost_every fun id w' he => ?_
  exact hrun id _ (h.inTurn (fun T => { T with pushed := some (x.2.clock, id) })
    (congrArg Store.crons (Rules.env_proc_store he)))

/-- A method of one plain request that succeeds when it is carried out. -/
theorem wp_request_going (h : Going x₀ name T x) {context : String} {c : DynamoCall}
    (hc : c.isPaged = false) (hp : (Call.dynamo c).isPlain) {a : c.Answer}
    (hok : (x.1.store.run c).1 = .ok a) (hcrons : (x.1.store.run c).2.crons = x.1.store.crons)
    {Q : Except Error c.Answer → World × Watch → Prop}
    (hfail : ∀ e x', Going x₀ name { T with hurt := true } x' → Q (.error e) x')
    (hrun : ∀ x', Going x₀ name T x' → Q (.ok a) x') :
    wp ρ.watching.every (request context c) Q x := by
  rw [request, wp_bind]
  refine wp_dynamo_going h hc hp hcrons (fun msg x' => hfail _ x') fun x' _ hg => ?_
  rw [hok]
  exact hrun x' hg

end

section
variable {cfg : Config} {lib : CronLib} {ρ : Rules} {x₀ x : World × Watch} {T : Turn}
  {record : CronRecord}

theorem going_getJob {name id : String} (h : Going x₀ name T x)
    {Q : Except Error JobRecord → World × Watch → Prop}
    (hfail : ∀ e x', Going x₀ name { T with hurt := true } x' → Q (.error e) x')
    (hnone : ∀ e x', x.1.store.jobs.lookup id = none → Going x₀ name T x' → Q (.error e) x')
    (hsome : ∀ r x', x.1.store.jobs.lookup id = some r → Going x₀ name T x' → Q (.ok r) x') :
    wp ρ.watching.every (getJob id) Q x := by
  rw [getJob, wp_bind]
  refine wp_dynamo_going h rfl rfl rfl (fun msg x' => hfail _ x') fun x' _ hg => ?_
  simp only [Store.run]
  cases hr : x.1.store.jobs.lookup id with
  | none => exact hnone _ x' hr hg
  | some r => exact hsome r x' hr hg

/-- The overlap check answers what `overlapIn` says, unless a call fails. -/
theorem going_stillRunning (h : Going x₀ record.name T x)
    {Q : Except Error Bool → World × Watch → Prop}
    (hfail : ∀ e x', Going x₀ record.name { T with hurt := true } x' → Q (.error e) x')
    (hnone : ∀ e x', overlapIn x.1 record = none → Going x₀ record.name T x' → Q (.error e) x')
    (hsome : ∀ b x', overlapIn x.1 record = some b → Going x₀ record.name T x' → Q (.ok b) x') :
    wp ρ.watching.every (stillRunning record) Q x := by
  rw [stillRunning, wp_ite]
  split
  · rename_i hpolicy
    exact hsome _ _ (if_pos hpolicy) h
  · rename_i hpolicy
    rw [wp_bind, getCronInstance, wp_bind]
    refine wp_dynamo_going h rfl rfl rfl (fun msg x' => hfail _ x') fun x' hx' hg => ?_
    have hjobs : x'.1.store.jobs = x.1.store.jobs := by rw [hx']; rfl
    simp only [Store.run, wp_pure]
    rw [wp_ite]
    split
    · rename_i hid
      exact hsome _ _ (by rw [overlapIn, if_neg hpolicy]; exact if_pos hid) hg
    · rename_i hid
      have hoverlap : overlapIn x.1 record =
          (x.1.store.jobs.lookup ((x.1.store.cronInstances.lookup record.name).getD "")).map
            fun job => !(isTerminalState job.state) := by
        rw [overlapIn, if_neg hpolicy]
        exact if_neg hid
      rw [wp_bind]
      refine going_getJob hg (fun e x' => hfail _ x') (fun e x' hj => hnone _ x' ?_)
        fun r x' hj => hsome _ x' ?_
      · rw [hoverlap, ← hjobs, hj]
        rfl
      · rw [hoverlap, ← hjobs, hj]
        rfl

theorem going_registerQueue {name queue : String} (h : Going x₀ name T x)
    {Q : Except Error Unit → World × Watch → Prop}
    (hfail : ∀ e x', Going x₀ name { T with hurt := true } x' → Q (.error e) x')
    (hrun : ∀ x', Going x₀ name T x' → Q (.ok ()) x') :
    wp ρ.watching.every (registerQueue queue) Q x := by
  have hcrons : (x.1.store.run (.putQueueItem queue)).2.crons = x.1.store.crons := by
    simp only [Store.run]
    split <;> rfl
  rw [registerQueue, wp_bind]
  refine wp_dynamo_going h rfl rfl hcrons (fun msg x' => hfail _ x') fun x' _ hg => ?_
  cases hq : x.1.store.queues.lookup queue <;> simp only [Store.run, hq] <;> exact hrun _ hg

theorem going_getOrCreateQueueURL {name queue : String} (h : Going x₀ name T x)
    {Q : Except Error String → World × Watch → Prop}
    (hfail : ∀ e x', Going x₀ name { T with hurt := true } x' → Q (.error e) x')
    (hrun : ∀ url x', Going x₀ name T x' → Q (.ok url) x') :
    wp ρ.watching.every (getOrCreateQueueURL cfg queue) Q x := by
  rw [getOrCreateQueueURL, wp_bind]
  refine wp_proc_going h rfl fun a x' hg => ?_
  cases a with
  | some url => exact hrun _ _ hg
  | none =>
    simp only
    rw [wp_bind]
    refine wp_sqs_going hg rfl (fun _ _ hd => by cases hd) (fun msg x' => hfail _ x') fun x' hg => ?_
    simp only [SqsCall.run]
    rw [wp_bind]
    refine wp_proc_going hg rfl fun _ x' hg => ?_
    rw [wp_bind]
    exact wp_proc_going hg rfl fun _ x' hg => hrun _ _ hg

/-- A job that fits is sent unless a call fails. -/
theorem going_sendToSQS {name : String} {job : Job} (h : Going x₀ name T x)
    {Q : Except Error MessageId → World × Watch → Prop}
    (hfail : ∀ e x', Going x₀ name { T with hurt := true } x' → Q (.error e) x')
    (hlarge : ∀ e x', encodes cfg job = false → Going x₀ name T x' → Q (.error e) x')
    (hrun : ∀ m x', encodes cfg job = true → Going x₀ name T x' → Q (.ok m) x') :
    wp ρ.watching.every (sendToSQS cfg job) Q x := by
  rw [sendToSQS, wp_bind]
  refine going_getOrCreateQueueURL h hfail fun url x' hg => ?_
  simp only [encodes] at hlarge hrun
  cases he : encodeJob cfg job with
  | error e => exact hlarge _ _ (by rw [he]; rfl) hg
  | ok body =>
    simp only
    rw [wp_bind]
    refine wp_sqs_going hg rfl (fun _ _ hd => by cases hd) (fun msg x' => hfail _ x') fun x' hg => ?_
    exact hrun _ _ (by rw [he]; rfl) hg

/-- A push of a job that is not unique and has no instant of its own. -/
theorem push_plain {job : Job} (hid : job.id = "") (hu : job.unique = none)
    (hat : job.scheduledAt = "") : push cfg job = timeNow >>= fun t => proc .newUUIDv7 >>= fun id =>
      pushAvailable cfg t { job with id := id, createdAt := cfg.formatTime t, attempt := 0 } := by
  cases job
  cases hid
  cases hu
  cases hat
  rfl

/-- A push of a cron's job: it succeeds if no call fails and the job fits. -/
theorem going_push {name : String} {job : Job} (h : Going x₀ name T x) (hnow : x₀.2.now.isSome)
    (hid : job.id = "") (hu : job.unique = none) (hat : job.scheduledAt = "")
    {Q : Except Error Job → World × Watch → Prop}
    (hfail : ∀ e T' x', T'.hurt = true → Going x₀ name T' x' → Q (.error e) x')
    (hlarge : ∀ e t id x', encodes cfg (pushedJob cfg job t id) = false →
      Going x₀ name { T with pushed := some (t, id) } x' → Q (.error e) x')
    (hrun : ∀ created t id x', encodes cfg (pushedJob cfg job t id) = true →
      Going x₀ name { T with pushed := some (t, id) } x' → Q (.ok created) x') :
    wp ρ.watching.every (push cfg job) Q x := by
  rw [push_plain hid hu hat, wp_bind]
  refine wp_timeNow_going h hnow fun t x' hclock hg => ?_
  rw [wp_bind]
  refine wp_newUUIDv7_going hg fun id x' hg => ?_
  rw [hclock] at hg
  rw [pushAvailable, wp_bind, putJob]
  refine wp_request_going hg rfl rfl rfl rfl (fun e x' => hfail _ _ x' rfl) fun x' hg => ?_
  simp only
  rw [wp_bind]
  refine going_registerQueue hg (fun e x' => hfail _ _ x' rfl) fun x' hg => ?_
  simp only
  rw [wp_bind]
  refine going_sendToSQS hg (fun e x' => hfail _ _ x' rfl) (fun e x' he hg => ?_) fun m x' he hg => ?_
  · exact hlarge _ t id x' he hg
  · exact hrun _ t id x' he hg

end

/-! ## What a turn comes to -/

/-- After the turn of `record` since `x₀`: if it got the lock, it has moved the
next run exactly if it was clear. -/
structure Turned (cfg : Config) (lib : CronLib) (zone : String) (now : Time) (record : CronRecord)
    (x₀ x : World × Watch) : Prop where
  first : x.2.now = x₀.2.now
  turns : ∀ m, m ≠ record.name → x.2.turns m = x₀.2.turns m
  crons : ∀ m, m ≠ record.name → x.1.store.crons.lookup m = x₀.1.store.crons.lookup m
  own : ∀ T, x.2.turns record.name = some T →
    (Unwedged cfg lib now x.1 record.name ↔ Clear cfg lib zone now record T)

section
variable {cfg : Config} {lib : CronLib} {zone : String} {now : Time} {ρ : Rules}
  {x₀ x : World × Watch} {T : Turn} {record : CronRecord}

theorem Clear.not_hurt (h : T.hurt = true) : ¬ Clear cfg lib zone now record T :=
  fun hc => Bool.false_ne_true (hc.1.symm.trans h)

theorem not_advances {msg : String} (hp : lib.parse record.expression = .error msg) :
    ¬ Advances cfg lib zone now record := by
  rintro ⟨schedule, hok, -⟩
  cases hp.symm.trans hok

theorem advances_iff {schedule : Schedule} (hp : lib.parse record.expression = .ok schedule) :
    Advances cfg lib zone now record ↔ Ahead cfg lib now (cfg.formatTime (schedule.next zone now)) := by
  refine ⟨?_, fun h => ⟨schedule, hp, h⟩⟩
  rintro ⟨schedule', hok, h⟩
  cases hp.symm.trans hok
  exact h

/-- A turn that writes nothing leaves the next run where it was. -/
theorem Going.turned (h : Going x₀ record.name T x)
    (hstuck : ¬ Unwedged cfg lib now x₀.1 record.name) (hT : ¬ Clear cfg lib zone now record T) :
    Turned cfg lib zone now record x₀ x where
  first := h.now
  turns m hm := h.log.other hm
  crons m _ := by rw [h.crons]
  own T' hT' := by
    cases h.log.self.symm.trans hT'
    have hsame : Unwedged cfg lib now x.1 record.name ↔ Unwedged cfg lib now x₀.1 record.name := by
      rw [Unwedged, h.crons, ← Unwedged]
    exact iff_of_false (fun hu => hstuck (hsame.mp hu)) hT

/-- A turn that writes the record. -/
theorem Going.wrote (h : Going x₀ record.name T x) {x' : World × Watch} {r : CronRecord}
    (hghost : x'.2 = x.2) (hcrons : x'.1.store.crons = x.1.store.crons.insert record.name r)
    (hr : Ahead cfg lib now r.nextRunAt ↔ Clear cfg lib zone now record T) :
    Turned cfg lib zone now record x₀ x' where
  first := by rw [hghost, h.now]
  turns m hm := by rw [hghost, h.log.other hm]
  crons m hm := by rw [hcrons, AList.lookup_insert_ne hm, h.crons]
  own T' hT' := by
    rw [hghost] at hT'
    cases h.log.self.symm.trans hT'
    rw [← hr, Unwedged, hcrons, AList.lookup_insert]
    exact ⟨fun ⟨r', hr', ha⟩ => by cases hr'; exact ha, fun ha => ⟨r, rfl, ha⟩⟩

theorem turned_putCron (h : Going x₀ record.name T x)
    (hstuck : ¬ Unwedged cfg lib now x₀.1 record.name) {r : CronRecord} (hname : r.name = record.name)
    (hr : Ahead cfg lib now r.nextRunAt ↔ Clear cfg lib zone now record T) :
    wp ρ.watching.every (putCron r) (fun _ x' => Turned cfg lib zone now record x₀ x') x := by
  rw [putCron, request, wp_bind]
  refine wp_ghost (wp_dynamo_faulty rfl (fun msg => ?_) ?_)
  · exact (h.inTurn (fun T => { T with hurt := true }) rfl).turned hstuck (Clear.not_hurt rfl)
  · exact h.wrote rfl (by rw [← hname]; rfl) hr

variable (hstuck : ¬ Unwedged cfg lib now x₀.1 record.name)
include hstuck

theorem turned_skipRun (h : Going x₀ record.name T x) (hT : T.hurt = false)
    (hover : overlapIn T.start record = some true) :
    wp ρ.watching.every (skipRun cfg lib zone now record)
      (fun _ x' => Turned cfg lib zone now record x₀ x') x := by
  rw [skipRun]
  cases hp : lib.parse record.expression with
  | error msg => exact h.turned hstuck fun hc => not_advances hp hc.2.1
  | ok schedule =>
    have hclear : Ahead cfg lib now (cfg.formatTime (schedule.next zone now)) ↔
        Clear cfg lib zone now record T := by
      rw [Clear, advances_iff hp]
      exact ⟨fun ha => ⟨hT, ha, .inl hover⟩, fun hc => hc.2.1⟩
    simp only
    rw [wp_bind]
    refine wp_mono (Env.every_mono _) _ (turned_putCron h hstuck rfl hclear) fun a x' ht => ?_
    split <;> exact ht

theorem turned_finishRun (h : Going x₀ record.name T x) (hT : T.hurt = false)
    (hover : overlapIn T.start record = some false) (hsend : Sendable cfg record T.pushed)
    (hstored : x₀.1.store.crons.lookup record.name = some record) :
    wp ρ.watching.every (finishRun cfg lib zone now record)
      (fun _ x' => Turned cfg lib zone now record x₀ x') x := by
  rw [finishRun]
  cases hp : lib.parse record.expression with
  | error msg =>
    simp only
    rw [wp_bind]
    refine turned_putCron h hstuck rfl (iff_of_false (fun ha => ?_) ?_)
    · exact hstuck ⟨record, hstored, ha⟩
    · exact fun hc => not_advances hp hc.2.1
  | ok schedule =>
    have hclear : Ahead cfg lib now (cfg.formatTime (schedule.next zone now)) ↔
        Clear cfg lib zone now record T := by
      rw [Clear, advances_iff hp]
      exact ⟨fun ha => ⟨hT, ha, .inr ⟨hover, hsend⟩⟩, fun hc => hc.2.1⟩
    simp only
    rw [wp_bind]
    refine wp_mono (Env.every_mono _) _ (turned_putCron h hstuck rfl hclear) fun a x' ht => ?_
    split <;> exact ht

/-- A run whose job cannot be sent is not clear. -/
theorem Going.unsent (h : Going x₀ record.name T x) (hover : overlapIn T.start record = some false)
    (hsend : ¬ Sendable cfg record T.pushed) : Turned cfg lib zone now record x₀ x := by
  refine h.turned hstuck fun hc => ?_
  rcases hc.2.2 with ho | ⟨-, hs⟩
  · cases hover.symm.trans ho
  · exact hsend hs

theorem turned_pushRun (h : Going x₀ record.name T x) (hT : T.hurt = false)
    (hnow : x₀.2.now.isSome) (hover : overlapIn T.start record = some false)
    (hstored : x₀.1.store.crons.lookup record.name = some record) :
    wp ρ.watching.every (pushRun cfg lib zone now record)
      (fun _ x' => Turned cfg lib zone now record x₀ x') x := by
  rw [pushRun]
  cases hjob : cronJobOf record with
  | error e =>
    refine h.unsent hstuck hover ?_
    rintro ⟨job, t, id, hok, -⟩
    cases hjob.symm.trans hok
  | ok job =>
    simp only
    rw [wp_ite]
    split
    · rename_i htype
      refine h.unsent hstuck hover ?_
      rintro ⟨job', t, id, hok, ht, -⟩
      cases hjob.symm.trans hok
      exact ht htype
    · rename_i htype
      have hplain : job.id = "" ∧ job.unique = none ∧ job.scheduledAt = "" := by
        rw [cronJobOf] at hjob
        split at hjob <;> cases hjob <;> exact ⟨rfl, rfl, rfl⟩
      rw [wp_bind]
      refine going_push h hnow hplain.1 hplain.2.1 hplain.2.2 (fun e T' x' hT' hg => ?_)
        (fun e t id x' hlarge hg => ?_) fun created t id x' henc hg => ?_
      · exact hg.turned hstuck (Clear.not_hurt hT')
      · refine hg.unsent hstuck hover ?_
        rintro ⟨job', t', id', hok, -, hpushed, henc⟩
        cases hjob.symm.trans hok
        cases hpushed
        exact Bool.false_ne_true (hlarge.symm.trans henc)
      · simp only
        rw [wp_bind, setCronInstance]
        refine wp_request_going hg rfl rfl rfl rfl (fun e x' hg => ?_) fun x' hg => ?_
        · exact hg.turned hstuck (Clear.not_hurt rfl)
        · exact turned_finishRun hstuck hg hT hover ⟨job, t, id, hjob, htype, rfl, henc⟩ hstored

theorem turned_runLocked (h : Going x₀ record.name T x) (hT : T.hurt = false)
    (hstart : T.start = x.1) (hnow : x₀.2.now.isSome)
    (hstored : x₀.1.store.crons.lookup record.name = some record) :
    wp ρ.watching.every (runLocked cfg lib zone now record)
      (fun _ x' => Turned cfg lib zone now record x₀ x') x := by
  rw [runLocked, wp_bind]
  refine going_stillRunning h (fun e x' hg => ?_) (fun e x' ho hg => ?_) fun b x' ho hg => ?_
  · exact hg.turned hstuck (Clear.not_hurt rfl)
  · refine hg.turned hstuck fun hc => ?_
    rw [Clear, hstart, ho] at hc
    rcases hc.2.2 with h | ⟨h, -⟩ <;> cases h
  · rw [← hstart] at ho
    cases b with
    | true => exact turned_skipRun hstuck hg hT ho
    | false => exact turned_pushRun hstuck hg hT hnow ho hstored

end

/-! ## The loop -/

section
variable {cfg : Config} {lib : CronLib} {zone : String} {now : Time} {ρ : Rules}
  {x : World × Watch} {record : CronRecord}

/-- Nothing but the clock and the turn have changed. -/
structure Idle (x x' : World × Watch) : Prop where
  first : x'.2.now = x.2.now
  turns : x'.2.turns = x.2.turns
  crons : x'.1.store.crons = x.1.store.crons

theorem Idle.turned {x' : World × Watch} (h : Idle x x') (hnone : x.2.turns record.name = none) :
    Turned cfg lib zone now record x x' where
  first := h.first
  turns m _ := by rw [h.turns]
  crons m _ := by rw [h.crons]
  own T hT := by
    rw [h.turns, hnone] at hT
    cases hT

theorem going_acquireCronLock {name : String} {ts : Int} (hnow : x.2.now.isSome)
    {Q : Except Error Bool → World × Watch → Prop}
    (hok : ∀ x', Going x name { start := x'.1 } x' → Q (.ok true) x')
    (hno : ∀ a x', a ≠ .ok true → Idle x x' → Q a x') :
    wp ρ.watching.every (acquireCronLock name ts) Q x := by
  obtain ⟨now, hn⟩ := Option.isSome_iff_exists.mp hnow
  rw [acquireCronLock, wp_bind]
  refine wp_ghost_every fun t w he => ?_
  have hs : w.store.crons = x.1.store.crons := congrArg Store.crons (Rules.env_proc_store he)
  have hor : x.2.now.or (some t) = x.2.now := by rw [hn, Option.some_or]
  show wp ρ.watching.every (dynamo (.putCronLockItem name ts (t.unix + 3600)) >>= _) Q _
  rw [wp_bind]
  refine wp_ghost (wp_dynamo_faulty rfl (fun msg => ?_) ?_)
  · exact hno _ _ (fun h => by cases h) ⟨hor, rfl, hs⟩
  · cases hl : w.store.cronLocks.lookup (name, ts) with
    | some ttl =>
      simp only [Store.run, hl]
      exact hno _ _ (fun h => by cases h) ⟨hor, rfl, hs⟩
    | none =>
      simp only [Store.run, hl]
      exact hok _ ⟨hor, .enter _ _ _, hs⟩

theorem turned_fireCron (hnow : x.2.now.isSome) (hnone : x.2.turns record.name = none)
    (hstored : x.1.store.crons.lookup record.name = some record) :
    wp ρ.watching.every (fireCron cfg lib zone now record)
      (fun _ x' => Turned cfg lib zone now record x x') x := by
  have hidle : Turned cfg lib zone now record x x := Idle.turned ⟨rfl, rfl, rfl⟩ hnone
  rw [fireCron, wp_ite]
  split
  · exact hidle
  · cases hnext : nextRunOf cfg lib record.nextRunAt with
    | none => exact hidle
    | some nextRun =>
      simp only
      rw [wp_ite]
      split
      · exact hidle
      · rename_i hdue
        have hstuck : ¬ Unwedged cfg lib now x.1 record.name := by
          rintro ⟨r, hr, t, ht, hlt⟩
          cases hstored.symm.trans hr
          cases hnext.symm.trans ht
          exact hdue hlt
        rw [wp_bind]
        refine going_acquireCronLock hnow (fun x' hg => ?_) fun a x' ha hi => ?_
        · exact turned_runLocked hstuck hg rfl rfl hnow hstored
        · have ht : Turned cfg lib zone now record x x' := hi.turned hnone
          split <;> first | exact ht | exact absurd rfl ha

/-- The turns of the loop: what belongs to a name is its record and its turn. -/
def cronTurns (cfg : Config) (lib : CronLib) (zone : String) (now : Time) :
    Turns (World × Watch) String CronRecord where
  key record := record.name
  Same m x x' := x'.2.now = x.2.now ∧ x'.2.turns m = x.2.turns m ∧
    x'.1.store.crons.lookup m = x.1.store.crons.lookup m
  Ready record x := x.2.now = some now ∧ x.2.turns record.name = none ∧
    x.1.store.crons.lookup record.name = some record
  Done record x := x.2.now = some now ∧ ∀ T, x.2.turns record.name = some T →
    (Unwedged cfg lib now x.1 record.name ↔ Clear cfg lib zone now record T)
  refl _ _ := ⟨rfl, rfl, rfl⟩
  trans h h' := ⟨h'.1.trans h.1, h'.2.1.trans h.2.1, h'.2.2.trans h.2.2⟩
  ready h hr := by rwa [h.1, h.2.1, h.2.2]
  done h hd := by rwa [h.1, h.2.1, Unwedged, h.2.2, ← Unwedged]

theorem turned_fireAll (records : List CronRecord) (firstErr : Option Error)
    (hnodup : (records.map (·.name)).Nodup)
    (hready : ∀ r ∈ records, (cronTurns cfg lib zone now).Ready r x) :
    wp ρ.watching.every (fireAll cfg lib zone now records firstErr)
      (fun _ x' => (cronTurns cfg lib zone now).After records x x') x := by
  refine Turns.wp_loop (cronTurns cfg lib zone now) (Env.every_mono _) id (fun _ => rfl)
    (fun _ _ _ => rfl) (fun record x hx => ?_) records firstErr hnodup hready
  refine wp_mono (Env.every_mono _) _ (turned_fireCron (by rw [hx.1]; rfl) hx.2.1 hx.2.2)
    fun _ x' h => ?_
  exact ⟨⟨h.first.trans hx.1, h.own⟩, fun m hm => ⟨h.first, h.turns m hm, h.crons m hm⟩⟩

/-- **The crons a run wedges.** A cron whose lock a run has acquired has its next
run moved past the run's clock exactly when nothing stood in the way of its
turn. -/
theorem fire_moves_clear {w w' : World} {a : Option Error} {y : Watch} (hn : w.NamedCrons)
    (hr : Runs ρ.watching (fireCronJobs cfg lib zone) (w, {}) a (w', y)) :
    ∀ name T, y.turns name = some T → ∃ now record, y.now = some now ∧
      w.store.crons.lookup name = some record ∧
      (Unwedged cfg lib now w' name ↔ Clear cfg lib zone now record T) := by
  refine wp_runs (Q := fun _ x' => ∀ name T, x'.2.turns name = some T → ∃ now record,
    x'.2.now = some now ∧ w.store.crons.lookup name = some record ∧
    (Unwedged cfg lib now x'.1 name ↔ Clear cfg lib zone now record T)) ?_ hr
  rw [fireCronJobs, wp_bind, listCrons, request, wp_bind]
  refine wp_ghost_every fun r w₁ he => ?_
  rw [Watch.note_plain rfl]
  rcases r with e | crons
  · -- no cron has been locked
    intro name T hT
    have hnone : (if callFailed (.dynamo .scanCrons) (.error e) then
        ({} : Watch).inTurn fun T => { T with hurt := true } else {}).turns name = none := by
      split <;> rfl
    cases hnone.symm.trans hT
  · obtain ⟨rfl, hstored, hnodup⟩ := Rules.env_scan hn he
    simp only
    rw [wp_pure]
    simp only
    rw [wp_bind]
    refine wp_ghost_every fun now w₂ he => ?_
    have hs : w₂.store = w₁.store := Rules.env_proc_store he
    refine wp_mono (Env.every_mono _) _ (turned_fireAll crons none hnodup fun r hr =>
      ⟨rfl, rfl, by rw [hs]; exact hstored r hr⟩) fun a x' ht => ?_
    intro name T hT
    by_cases hname : name ∈ crons.map (·.name)
    · obtain ⟨record, hmem, rfl⟩ := List.mem_map.mp hname
      obtain ⟨hnow, hown⟩ := ht.own record hmem
      exact ⟨now, record, hnow, hstored _ hmem, hown T hT⟩
    · cases (ht.others name hname).2.1.symm.trans hT

end

/-! ## One run -/

/-- The choices of a run that fires the report: the crons, the clock, the
clock of the lock, the lock, and then the run. -/
def reportTurn : List Choice :=
  [.page ["report"], .tick (24 * hour), .tick (24 * hour), .ok]

/-- In Tokyo the report is moved on. -/
theorem fire_moves_clear_report : ∃ (w' : World) (y : Watch),
    (∃ T, y.turns "report" = some T) ∧ (w'.store.crons.lookup "report").map (·.nextRunAt) =
      some "1970-01-03T00:00:00.000Z" ∧
    ∀ name T, y.turns name = some T → ∃ now record, y.now = some now ∧
      reportWorld.store.crons.lookup name = some record ∧
      (Unwedged cronDemo demoLib now w' name ↔
        Clear cronDemo demoLib "Asia/Tokyo" now record T) := by
  have hrun : ∃ out, script (ghostAct (Rules.act {}) Watch.note)
      (reportTurn ++ reportRun (24 * hour)) (fireCronJobs cronDemo demoLib "Asia/Tokyo")
      (reportWorld, {}) = some out ∧ (out.2.2.turns "report").isSome = true ∧
      (out.2.1.store.crons.lookup "report").map (·.nextRunAt) =
        some "1970-01-03T00:00:00.000Z" := ⟨_, rfl, rfl, rfl⟩
  obtain ⟨⟨a, w', y⟩, hscript, hT, hnext⟩ := hrun
  exact ⟨w', y, Option.isSome_iff_exists.mp hT, hnext,
    fire_moves_clear reportWorld_named (ghost_script_runs _ hscript)⟩

/-- When the queue cannot be created the report is not pushed, and its next
run stays where it was. -/
theorem failed_push_wedges : ¬ ∀ (cfg : Config) (lib : CronLib) (ρ : Rules) (zone : String)
    (w w' : World) (a : Option Error) (y : Watch), w.NamedCrons →
    Runs ρ.watching (fireCronJobs cfg lib zone) (w, {}) a (w', y) →
    ∀ name, (y.turns name).isSome → ∃ now, y.now = some now ∧ Unwedged cfg lib now w' name := by
  intro hall
  have hrun : ∃ out, script (ghostAct (Rules.act { faults := true }) Watch.note)
      (reportTurn ++ [.tick (24 * hour), .uuid "r1", .ok, .ok, .ok, .fault "throttled"])
      (fireCronJobs cronDemo demoLib "Asia/Tokyo") (reportWorld, {}) = some out ∧
      (out.2.2.turns "report").isSome = true ∧ out.2.2.now = some (24 * hour) ∧
      out.2.1.store.crons.lookup "report" = some reportRecord := ⟨_, rfl, rfl, rfl, rfl⟩
  obtain ⟨⟨a, w', y⟩, hscript, hT, hnow, hrecord⟩ := hrun
  obtain ⟨now, hnow', r, hr, t, ht, hlt⟩ := hall cronDemo demoLib { faults := true } "Asia/Tokyo"
    reportWorld w' a y reportWorld_named (ghost_script_runs _ hscript) "report" hT
  cases hnow.symm.trans hnow'
  cases hrecord.symm.trans hr
  have hdue : nextRunOf cronDemo demoLib reportRecord.nextRunAt = some (24 * hour) := rfl
  cases hdue.symm.trans ht
  exact lt_irrefl _ hlt

end OjsSqs
