import OjsSqs.Sqs.Scheduling

/-! # Rules of an environment, and the store methods without faults

`Rules` says what an environment may do: let calls fail, move messages to the
native dead letter queue, let time pass inside an operation. Where no call
fails, each method of the store and each helper that talks to SQS is one
update of the world; the equations of their weakest preconditions say which. -/
namespace OjsSqs
open Calls

structure Rules where
  /-- AWS calls may fail, and a query that is not followed may stop after a page -/
  faults : Bool := false
  /-- a receive may find messages that have used up their deliveries -/
  redrive : Bool := true
  /-- the clock may advance while an operation runs -/
  timePasses : Bool := true
  /-- identifiers that are never handed out as new ones -/
  reserved : List String := []
deriving DecidableEq

/-- The rules let the environment make this choice at this call. -/
def Rules.admits (ρ : Rules) (w : World) : Choice → Bool
  | .deliver ids => ρ.redrive || w.sqs.noneExhausted ids
  | .tick t => ρ.timePasses || decide (t = w.clock)
  | .uuid id => decide (id ∉ ρ.reserved)
  | ch => ρ.faults || !ch.isFault

/-- A call under the rules. -/
def Rules.act (ρ : Rules) (ch : Choice) (c : Call) (w : World) : Option (Answer c × World) :=
  if ρ.admits w ch then w.act ch c else none

def Rules.env (ρ : Rules) : Env World Call Answer := .ofAct ρ.act

/-- What the clock may show to an operation in `w`. -/
def Rules.mayShow (ρ : Rules) (w : World) (t : Time) : Prop :=
  w.clock ≤ t ∧ (ρ.timePasses = false → t = w.clock)

theorem Rules.mayShow_trans {ρ : Rules} {w w' : World} {t : Time} (h : ρ.mayShow w w'.clock)
    (h' : ρ.mayShow w' t) : ρ.mayShow w t :=
  ⟨h.1.trans h'.1, fun hp => (h'.2 hp).trans (h.2 hp)⟩

/-! ## Updates of the world -/

namespace World

def setJob (id : String) (r : JobRecord) (w : World) : World :=
  { w with store := { w.store with jobs := w.store.jobs.insert id r } }

def setStore (s : Store) (w : World) : World := { w with store := s }

def setSqs (q : SqsState) (w : World) : World := { w with sqs := q }

def setClock (t : Time) (w : World) : World := { w with clock := t }

/-- `AddScheduledJob` and `AddRetryJob` -/
def addDue (i : DueIndex) (id : String) (atMs : Int) (w : World) : World :=
  { w with store := w.store.setDue i ((w.store.due i).insert id atMs) }

/-- `RemoveScheduledJob` and `RemoveRetryJob` -/
def removeDue (i : DueIndex) (id : String) (w : World) : World :=
  { w with store := w.store.setDue i ((w.store.due i).erase id) }

/-- `AddToDeadLetter` -/
def addDead (id : String) (w : World) : World :=
  { w with store := { w.store with deadLetters := w.store.deadLetters.insert id () } }

/-- `RemoveFromDeadLetter` -/
def removeDead (id : String) (w : World) : World :=
  { w with store := { w.store with deadLetters := w.store.deadLetters.erase id } }

def setQueues (t : Table QueueItem) (w : World) : World :=
  { w with store := { w.store with queues := t } }

def setUniqueKeys (t : Table UniqueItem) (w : World) : World :=
  { w with store := { w.store with uniqueKeys := t } }

/-- `RegisterQueue` -/
def registerQueue (name : String) (w : World) : World :=
  match w.store.queues.lookup name with
  | some _ => w
  | none => w.setQueues (w.store.queues.insert name { name := some name })

/-- `IncrementQueueCompleted` -/
def addCompleted (name : String) (w : World) : World :=
  w.setQueues (w.store.queues.insert name
    { w.store.queueItem name with completed := (w.store.queueItem name).completed + 1 })

variable (cfg : Config)

/-- The URL `getOrCreateQueueURL` returns. -/
def urlOf (queue : String) (w : World) : String :=
  (w.queueURLs.lookup queue).getD (sqsQueueName cfg queue)

/-- The world after `getOrCreateQueueURL`. -/
def openQueue (queue : String) (w : World) : World :=
  match w.queueURLs.lookup queue with
  | some _ => w
  | none => { w with
      sqs := w.sqs.createQueue (sqsQueueName cfg queue)
      background := w.background ++ [(queue, sqsQueueName cfg queue)]
      queueURLs := w.queueURLs.insert queue (sqsQueueName cfg queue) }

/-- The world after the message of a record's handle was deleted. -/
def dropMessage (r : JobRecord) (w : World) : World :=
  match r.sqsReceiptHandle with
  | none => w
  | some h => (w.openQueue cfg r.queue).setSqs
      ((w.openQueue cfg r.queue).sqs.delete (w.urlOf cfg r.queue) h)

/-- The world after the message of a record's handle was made visible. -/
def releaseMessage (r : JobRecord) (w : World) : World :=
  match r.sqsReceiptHandle with
  | none => w
  | some h => (w.openQueue cfg r.queue).setSqs
      ((w.openQueue cfg r.queue).sqs.changeVisibility (w.urlOf cfg r.queue) h 0)

/-- The world after `sendToSQS`. -/
def sendJob (job : Job) (w : World) : World :=
  let w' := w.openQueue cfg job.queue
  match encodeJob cfg job with
  | .error _ => w'
  | .ok body => w'.setSqs (w'.sqs.send (w.urlOf cfg job.queue) (outMessage cfg job body))

end World

/-- The record after `UpdateJobState`. -/
def JobRecord.moved (r : JobRecord) (s : JobState) (us : List JobUpdate) : JobRecord :=
  r.update s us (gsi1skOf s r.createdAt) (gsi2pkOf s)

section
variable (r : JobRecord) (s : JobState) (us : List JobUpdate)

@[simp] theorem JobRecord.moved_state : (r.moved s us).state = s := rfl

@[simp] theorem JobRecord.moved_id : (r.moved s us).id = r.id := JobRecord.update_id ..

@[simp] theorem JobRecord.moved_queue : (r.moved s us).queue = r.queue :=
  JobRecord.update_queue ..

@[simp] theorem JobRecord.moved_expiresAt : (r.moved s us).expiresAt = r.expiresAt :=
  JobRecord.update_expiresAt ..

@[simp] theorem JobRecord.moved_handle :
    (r.moved s us).sqsReceiptHandle = (applyUpdates us r).sqsReceiptHandle := rfl

end

/-! ## Equations of the calls -/

/-- The queries, whose answer the service is free to choose. -/
def DynamoCall.isQuery : DynamoCall → Bool
  | .queryDue _ _ | .scanDue _ _ | .scanCrons => true
  | _ => false

/-- These, and the queries that may stop after a page. -/
def DynamoCall.isPaged : DynamoCall → Bool
  | .queryWorkflowJobs _ | .queryWorkflowResults _ => true
  | c => c.isQuery

theorem DynamoCall.isQuery_of_isPaged {c : DynamoCall} (hc : c.isPaged = false) :
    c.isQuery = false := by
  cases c <;> first | rfl | cases hc

theorem Store.act_eq (ch : Choice) (c : DynamoCall) (s : Store) (hch : ch.isFault = false)
    (hc : c.isQuery = false) : s.act ch c = if ch = .ok then some (s.run c) else none := by
  cases ch <;> first | (cases hch; done) | (cases c <;> first | (cases hc; done) | rfl)

/-- An SQS request whose answer is not free to choose. -/
def SqsCall.run : (c : SqsCall) → SqsState → Except AwsError c.Answer × SqsState
  | .createQueue name, q => (.ok name, q.createQueue name)
  | .sendMessage url m, q => (.ok q.nextMessage, q.send url m)
  | .sendMessageBatch url entries, q => (.ok [], q.sendBatch url entries)
  | .receiveMessage _ _ _, q => (.ok [], q)
  | .deleteMessage url h, q => (.ok (), q.delete url h)
  | .changeMessageVisibility url h vis, q => (.ok (), q.changeVisibility url h vis)
  | .getQueueArn url, q => (.ok (some url), q)
  | .setRedrivePolicy url _ n, q => (.ok (), q.setRedrive url n)

def SqsCall.isReceive : SqsCall → Bool
  | .receiveMessage _ _ _ => true
  | _ => false

theorem SqsState.act_eq (ch : Choice) (c : SqsCall) (q : SqsState) (hch : ch.isFault = false)
    (hc : c.isReceive = false) : q.act ch c = if ch = .ok then some (c.run q) else none := by
  cases ch <;> first | (cases hch; done) | (cases c <;> first | (cases hc; done) | rfl)

section
variable {ρ : Rules} {w w' : World}

theorem Rules.env_dynamo {c : DynamoCall} {r : Except AwsError c.Answer}
    (h : ρ.env (.dynamo c) w r w') :
    ∃ ch s', ρ.admits w ch = true ∧ w.store.act ch c = some (r, s') ∧ w' = w.setStore s' := by
  obtain ⟨ch, he⟩ := h
  obtain ⟨ha, he⟩ := Option.ite_none_right_eq_some.mp he
  obtain ⟨⟨r', s'⟩, hs, he⟩ := Option.map_eq_some_iff.mp he
  cases he
  exact ⟨ch, s', ha, hs, rfl⟩

theorem Rules.env_sqs {c : SqsCall} {r : Except AwsError c.Answer}
    (h : ρ.env (.sqs c) w r w') :
    ∃ ch q', ρ.admits w ch = true ∧ w.sqs.act ch c = some (r, q') ∧ w' = w.setSqs q' := by
  obtain ⟨ch, he⟩ := h
  obtain ⟨ha, he⟩ := Option.ite_none_right_eq_some.mp he
  obtain ⟨⟨r', q'⟩, hs, he⟩ := Option.map_eq_some_iff.mp he
  cases he
  exact ⟨ch, q', ha, hs, rfl⟩

theorem Rules.env_proc {c : ProcCall} {r : c.Answer} (h : ρ.env (.proc c) w r w') :
    ∃ ch, ρ.admits w ch = true ∧ World.actProc ch c w = some (r, w') := by
  obtain ⟨ch, he⟩ := h
  obtain ⟨ha, he⟩ := Option.ite_none_right_eq_some.mp he
  exact ⟨ch, ha, he⟩

end

section
variable {ρ : Rules} (hρ : ρ.faults = false) {w : World}

theorem Rules.admits_ok : ρ.admits w .ok = true := by simp [Rules.admits, Choice.isFault]

theorem Rules.not_fault {ch : Choice} (hρ : ρ.faults = false) (h : ρ.admits w ch = true) :
    ch.isFault = false := by
  cases ch <;> simp_all [Rules.admits, Choice.isFault]

include hρ

/-- Without faults a request to the store is one update of the tables. -/
theorem wp_dynamo {c : DynamoCall} (hc : c.isQuery = false)
    (Q : Except AwsError c.Answer → World → Prop) :
    wp ρ.env.every (dynamo c) Q w = Q (w.store.run c).1 (w.setStore (w.store.run c).2) := by
  apply propext
  constructor
  · intro h
    refine h _ _ ⟨.ok, ?_⟩
    simp [Rules.act, Rules.admits_ok, World.act, Store.act_eq .ok c w.store rfl hc,
      World.setStore]
  · intro h r w' he
    obtain ⟨ch, s', ha, hs, rfl⟩ := Rules.env_dynamo he
    rw [Store.act_eq ch c w.store (Rules.not_fault hρ ha) hc] at hs
    obtain ⟨_, hr⟩ := Option.ite_none_right_eq_some.mp hs
    rw [Option.some.inj hr] at h
    exact h

/-- Without faults a request to SQS other than a receive is one update too. -/
theorem wp_sqs {c : SqsCall} (hc : c.isReceive = false)
    (Q : Except AwsError c.Answer → World → Prop) :
    wp ρ.env.every (sqs c) Q w = Q (c.run w.sqs).1 (w.setSqs (c.run w.sqs).2) := by
  apply propext
  constructor
  · intro h
    refine h _ _ ⟨.ok, ?_⟩
    simp [Rules.act, Rules.admits_ok, World.act, SqsState.act_eq .ok c w.sqs rfl hc,
      World.setSqs]
  · intro h r w' he
    obtain ⟨ch, q', ha, hs, rfl⟩ := Rules.env_sqs he
    rw [SqsState.act_eq ch c w.sqs (Rules.not_fault hρ ha) hc] at hs
    obtain ⟨_, hr⟩ := Option.ite_none_right_eq_some.mp hs
    rw [Option.some.inj hr] at h
    exact h

/-- A receive hands out some visible messages. -/
theorem wp_receive {url : String} {max : Nat} {vis : Int}
    {Q : Except AwsError (List Delivery) → World → Prop}
    (h : ∀ ids, w.sqs.mayPick url max ids = true →
      (ρ.redrive = false → w.sqs.noneExhausted ids = true) →
      Q (.ok (w.sqs.receive vis ids).1) (w.setSqs (w.sqs.receive vis ids).2)) :
    wp ρ.env.every (sqs (.receiveMessage url max vis)) Q w := by
  intro r w' he
  obtain ⟨ch, q', ha, he, rfl⟩ := Rules.env_sqs he
  have hf := Rules.not_fault hρ ha
  cases ch with
  | deliver ids =>
    obtain ⟨hp, hr⟩ := Option.ite_none_right_eq_some.mp he
    cases hr
    exact h ids hp fun hr => by simpa [Rules.admits, hr] using ha
  | fault | noIndex | refuse | firstPage => cases hf
  | _ => cases he

/-- The index query answers some of the due jobs. -/
theorem wp_getDueJobs {i : DueIndex} {nowMs : Int}
    {Q : Except Error (List String) → World → Prop}
    (h : ∀ ids, w.store.isDuePage i nowMs ids = true → Q (.ok ids) w) :
    wp ρ.env.every (getDueJobs i nowMs) Q w := by
  simp only [getDueJobs, wp_bind]
  intro r w' he
  obtain ⟨ch, s', ha, he, rfl⟩ := Rules.env_dynamo he
  have hf := Rules.not_fault hρ ha
  cases ch with
  | page ids =>
    obtain ⟨hp, hr⟩ := Option.ite_none_right_eq_some.mp he
    cases hr
    exact h ids ((Bool.and_eq_true _ _).mp hp).1
  | fault | noIndex | refuse | firstPage => cases hf
  | _ => cases he

omit hρ

theorem wp_timeNow {Q : Time → World → Prop}
    (h : ∀ t, ρ.mayShow w t → Q t (w.setClock t)) : wp ρ.env.every timeNow Q w := by
  intro r w' he
  obtain ⟨ch, ha, he⟩ := Rules.env_proc he
  cases ch with
  | tick t =>
    obtain ⟨hle, hr⟩ := Option.ite_none_right_eq_some.mp he
    cases hr
    refine h _ ⟨hle, fun hp => ?_⟩
    simpa [Rules.admits, hp] using ha
  | _ => cases he

theorem wp_newUUIDv7 {Q : String → World → Prop}
    (h : ∀ id, id ≠ "" → w.store.jobs.lookup id = none → id ∉ ρ.reserved → Q id w) :
    wp ρ.env.every (proc .newUUIDv7) Q w := by
  intro r w' he
  obtain ⟨ch, ha, he⟩ := Rules.env_proc he
  cases ch with
  | uuid id =>
    obtain ⟨hid, hr⟩ := Option.ite_none_right_eq_some.mp he
    cases hr
    exact h _ hid.1 hid.2 (by simpa [Rules.admits] using ha)
  | _ => cases he

theorem wp_rangeMap {keys : List String} {Q : List String → World → Prop}
    (h : ∀ order, order.Perm keys → Q order w) : wp ρ.env.every (proc (.rangeMap keys)) Q w := by
  intro r w' he
  obtain ⟨ch, _, he⟩ := Rules.env_proc he
  cases ch with
  | page order =>
    obtain ⟨hp, hr⟩ := Option.ite_none_right_eq_some.mp he
    cases hr
    exact h _ hp
  | _ => cases he

end

end OjsSqs
