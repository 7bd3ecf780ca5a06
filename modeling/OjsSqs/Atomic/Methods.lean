import OjsSqs.Atomic.Rules

/-! # The methods without faults

One equation for each method of the store and each helper that talks to SQS:
what it returns and which update of the world it is, when no call fails. The
operations are proved from these and never unfold a request again. -/
namespace OjsSqs
open Calls

namespace World

@[simp] theorem setStore_store (w : World) : w.setStore w.store = w := rfl
@[simp] theorem setSqs_sqs (w : World) : w.setSqs w.sqs = w := rfl

@[simp] theorem openQueue_store (cfg : Config) (w : World) (queue : String) :
    (w.openQueue cfg queue).store = w.store := by
  rw [openQueue]
  split <;> rfl

@[simp] theorem openQueue_clock (cfg : Config) (w : World) (queue : String) :
    (w.openQueue cfg queue).clock = w.clock := by
  rw [openQueue]
  split <;> rfl

theorem openQueue_nextMessage (cfg : Config) (queue : String) (w : World) :
    (w.openQueue cfg queue).sqs.nextMessage = w.sqs.nextMessage := by
  rw [openQueue]
  cases w.queueURLs.lookup queue with
  | some url => rfl
  | none =>
    simp only [SqsState.createQueue]
    split <;> rfl

/-- Opening a queue does not change where a queue is. -/
theorem openQueue_urlOf (cfg : Config) (w : World) (queue queue' : String) :
    (w.openQueue cfg queue).urlOf cfg queue' = w.urlOf cfg queue' := by
  rw [openQueue]
  cases hq : w.queueURLs.lookup queue with
  | some url => rfl
  | none =>
    simp only [urlOf]
    by_cases hne : queue' = queue
    · subst hne
      rw [AList.lookup_insert, hq]
      rfl
    · rw [AList.lookup_insert_ne hne]

end World

variable (cfg : Config) {ρ : Rules} (hρ : ρ.faults = false) {w : World}
include hρ

theorem wp_getJob_some {id : String} {r : JobRecord} (h : w.store.jobs.lookup id = some r)
    (Q : Except Error JobRecord → World → Prop) :
    wp ρ.env.every (getJob id) Q w = Q (.ok r) w := by
  rw [getJob, wp_bind, wp_dynamo hρ rfl]
  simp only [Store.run, h, wp_pure, World.setStore_store]

theorem wp_getJob_none {id : String} (h : w.store.jobs.lookup id = none)
    (Q : Except Error JobRecord → World → Prop) :
    wp ρ.env.every (getJob id) Q w = Q (.error (.plain ("job not found: " ++ id))) w := by
  rw [getJob, wp_bind, wp_dynamo hρ rfl]
  simp only [Store.run, h, wp_pure, World.setStore_store]

/-- A method of one request that always succeeds. -/
theorem wp_request {context : String} {c : DynamoCall} (hc : c.isQuery = false) {a : c.Answer}
    {s : Store} (hrun : w.store.run c = (.ok a, s)) (Q : Except Error c.Answer → World → Prop) :
    wp ρ.env.every (request context c) Q w = Q (.ok a) (w.setStore s) := by
  rw [request, wp_bind, wp_dynamo hρ hc, hrun]
  rfl

theorem wp_putJob {r : JobRecord} (Q : Except Error Unit → World → Prop) :
    wp ρ.env.every (putJob r) Q w = Q (.ok ()) (w.setJob r.id r) := by
  rw [putJob, wp_request hρ rfl rfl]; rfl

theorem wp_updateJobState_some {id : String} {r : JobRecord} {s : JobState}
    {us : List JobUpdate} (h : w.store.jobs.lookup id = some r)
    (Q : Except Error Unit → World → Prop) :
    wp ρ.env.every (updateJobState id s us) Q w = Q (.ok ()) (w.setJob id (r.moved s us)) := by
  rw [updateJobState, wp_bind, wp_getJob_some hρ h, wp_request hρ rfl rfl]
  simp only [h, Option.getD_some]
  rfl

theorem wp_updateJobState_none {id : String} {s : JobState} {us : List JobUpdate}
    (h : w.store.jobs.lookup id = none) (Q : Except Error Unit → World → Prop) :
    wp ρ.env.every (updateJobState id s us) Q w =
      Q (.error (.wrap "failed to get job for GSI update" (.plain ("job not found: " ++ id)))) w := by
  rw [updateJobState, wp_bind, wp_getJob_none hρ h]
  rfl

theorem wp_registerQueue {name : String} (Q : Except Error Unit → World → Prop) :
    wp ρ.env.every (registerQueue name) Q w = Q (.ok ()) (w.registerQueue name) := by
  rw [registerQueue, wp_bind, wp_dynamo hρ rfl, World.registerQueue]
  simp only [Store.run]
  cases w.store.queues.lookup name <;> rfl

/-- The pause flag only decides which queues are read. -/
theorem wp_isQueuePaused {name : String} {Q : Except Error Bool → World → Prop}
    (h : ∀ a, Q a w) : wp ρ.env.every (isQueuePaused name) Q w := by
  rw [isQueuePaused, wp_bind, wp_dynamo hρ rfl]
  simp only [Store.run]
  cases w.store.queues.lookup name <;> exact h _

theorem wp_incrementQueueCompleted {name : String} (Q : Except Error Unit → World → Prop) :
    wp ρ.env.every (incrementQueueCompleted name) Q w = Q (.ok ()) (w.addCompleted name) := by
  rw [incrementQueueCompleted, wp_request hρ rfl rfl]; rfl

theorem wp_getUniqueKey_some {fp : String} {item : UniqueItem}
    (h : w.store.uniqueKeys.lookup fp = some item) (Q : Except Error String → World → Prop) :
    wp ρ.env.every (getUniqueKey fp) Q w = Q (.ok item.jobID) w := by
  rw [getUniqueKey, wp_bind, wp_dynamo hρ rfl]
  simp only [Store.run, h, wp_pure, World.setStore_store]

theorem wp_getUniqueKey_none {fp : String} (h : w.store.uniqueKeys.lookup fp = none)
    (Q : Except Error String → World → Prop) :
    wp ρ.env.every (getUniqueKey fp) Q w = Q (.error (.plain "unique key not found")) w := by
  rw [getUniqueKey, wp_bind, wp_dynamo hρ rfl]
  simp only [Store.run, h, wp_pure, World.setStore_store]

theorem wp_getWorkflowRecord_none {id : String} (h : w.store.workflows.lookup id = none)
    (Q : Except Error WorkflowRecord → World → Prop) :
    wp ρ.env.every (getWorkflowRecord id) Q w =
      Q (.error (.plain ("workflow not found: " ++ id))) w := by
  rw [getWorkflowRecord, wp_bind, wp_dynamo hρ rfl]
  simp only [Store.run, h, wp_pure, World.setStore_store]

theorem wp_addToDeadLetter {id : String} (Q : Except Error Unit → World → Prop) :
    wp ρ.env.every (addToDeadLetter id) Q w =
      Q (.ok ()) (w.addDead id) := by
  rw [addToDeadLetter, wp_request hρ rfl rfl]; rfl

theorem wp_removeFromDeadLetter {id : String} (Q : Except Error Unit → World → Prop) :
    wp ρ.env.every (removeFromDeadLetter id) Q w =
      Q (.ok ()) (w.removeDead id) := by
  rw [removeFromDeadLetter, wp_request hρ rfl rfl]; rfl

theorem wp_isInDeadLetter {id : String} (Q : Except Error Bool → World → Prop) :
    wp ρ.env.every (isInDeadLetter id) Q w =
      Q (.ok (w.store.deadLetters.lookup id).isSome) w := by
  rw [isInDeadLetter, wp_request hρ rfl rfl]; rfl

theorem wp_addDueJob {i : DueIndex} {id : String} {at' : Int}
    (Q : Except Error Unit → World → Prop) :
    wp ρ.env.every (addDueJob i id at') Q w =
      Q (.ok ()) (w.addDue i id at') := by
  rw [addDueJob, wp_request hρ rfl rfl]; rfl

theorem wp_removeDueJob {i : DueIndex} {id : String} (Q : Except Error Unit → World → Prop) :
    wp ρ.env.every (removeDueJob i id) Q w = Q (.ok ()) (w.removeDue i id) := by
  rw [removeDueJob, wp_request hρ rfl rfl]; rfl

/-- `Info` only reads. -/
theorem wp_info {id : String} {Q : Except Error Job → World → Prop} (h : ∀ a, Q a w) :
    wp ρ.env.every (info id) Q w := by
  rw [info, wp_bind]
  cases hr : w.store.jobs.lookup id with
  | none =>
    rw [wp_getJob_none hρ hr]
    exact h _
  | some r =>
    rw [wp_getJob_some hρ hr]
    exact h _

/-! ## Queues and messages -/

omit hρ in
theorem wp_procOk (c : ProcCall) (a : c.Answer) (w' : World)
    (h : ∀ ch, World.actProc ch c w = if ch = .ok then some (a, w') else none)
    (Q : c.Answer → World → Prop) : wp ρ.env.every (proc c) Q w = Q a w' := by
  apply propext
  constructor
  · intro hq
    exact hq _ _ ⟨.ok, by simp [Rules.act, Rules.admits_ok, World.act, h]⟩
  · intro hq r w'' he
    obtain ⟨ch, _, hr⟩ := Rules.env_proc he
    rw [h] at hr
    cases (Option.ite_none_right_eq_some.mp hr).2
    exact hq

omit hρ in
theorem wp_lookupURL {queue : String} (Q : Option String → World → Prop) :
    wp ρ.env.every (proc (.lookupURL queue)) Q w = Q (w.queueURLs.lookup queue) w :=
  wp_procOk (.lookupURL queue) _ w (by intro ch; cases ch <;> rfl) Q

omit hρ in
theorem wp_goEnsureDLQ {queue url : String} (Q : Unit → World → Prop) :
    wp ρ.env.every (proc (.goEnsureDLQ queue url)) Q w =
      Q () { w with background := w.background ++ [(queue, url)] } :=
  wp_procOk (.goEnsureDLQ queue url) () _ (by intro ch; cases ch <;> rfl) Q

omit hρ in
theorem wp_cacheURL {queue url : String} (Q : Unit → World → Prop) :
    wp ρ.env.every (proc (.cacheURL queue url)) Q w =
      Q () { w with queueURLs := w.queueURLs.insert queue url } :=
  wp_procOk (.cacheURL queue url) () _ (by intro ch; cases ch <;> rfl) Q

theorem wp_getOrCreateQueueURL {queue : String} (Q : Except Error String → World → Prop) :
    wp ρ.env.every (getOrCreateQueueURL cfg queue) Q w =
      Q (.ok (w.urlOf cfg queue)) (w.openQueue cfg queue) := by
  rw [getOrCreateQueueURL, wp_bind, wp_lookupURL, World.urlOf, World.openQueue]
  cases h : w.queueURLs.lookup queue with
  | some url => rfl
  | none =>
    rw [wp_bind, wp_sqs hρ rfl]
    simp only [SqsCall.run, wp_bind, wp_pure]
    rw [wp_goEnsureDLQ, wp_cacheURL]
    rfl

theorem wp_sendToSQS {job : Job} (Q : Except Error MessageId → World → Prop) :
    wp ρ.env.every (sendToSQS cfg job) Q w =
      Q ((encodeJob cfg job).map fun _ => w.sqs.nextMessage) (w.sendJob cfg job) := by
  rw [sendToSQS, wp_bind, wp_getOrCreateQueueURL cfg hρ, World.sendJob]
  cases encodeJob cfg job with
  | error e => rfl
  | ok body =>
    simp only
    rw [wp_bind, wp_sqs hρ rfl]
    simp only [SqsCall.run, wp_pure, World.openQueue_nextMessage]
    rfl

theorem wp_dropMessage {r : JobRecord} (Q : Unit → World → Prop) :
    wp ρ.env.every (dropMessage cfg r) Q w = Q () (w.dropMessage cfg r) := by
  rw [dropMessage, World.dropMessage]
  cases r.sqsReceiptHandle with
  | none => rfl
  | some h =>
    simp only
    rw [wp_bind, wp_getOrCreateQueueURL cfg hρ]
    simp only
    rw [wp_bind, wp_sqs hρ rfl]
    rfl

theorem wp_deleteMessageOf {r : JobRecord} {step did : String}
    (Q : Except Error Unit → World → Prop) :
    wp ρ.env.every (deleteMessageOf cfg r step did) Q w = Q (.ok ()) (w.dropMessage cfg r) := by
  rw [deleteMessageOf, World.dropMessage]
  cases r.sqsReceiptHandle with
  | none => rfl
  | some h =>
    simp only
    rw [wp_bind, wp_getOrCreateQueueURL cfg hρ]
    simp only
    rw [wp_bind, wp_sqs hρ rfl]
    rfl

theorem wp_releaseMessage {r : JobRecord} (Q : Except Error Unit → World → Prop) :
    wp ρ.env.every (releaseMessage cfg r) Q w = Q (.ok ()) (w.releaseMessage cfg r) := by
  rw [releaseMessage, World.releaseMessage]
  cases r.sqsReceiptHandle with
  | none => rfl
  | some h =>
    simp only
    rw [wp_bind, wp_getOrCreateQueueURL cfg hρ]
    simp only
    rw [wp_bind, wp_sqs hρ rfl]
    rfl

theorem wp_info_some {id : String} {r : JobRecord} (h : w.store.jobs.lookup id = some r)
    (Q : Except Error Job → World → Prop) :
    wp ρ.env.every (info id) Q w = Q (.ok (recordToJob r)) w := by
  rw [info, wp_bind, wp_getJob_some hρ h]
  rfl

omit hρ in
theorem wp_nowFormatted {Q : String → World → Prop}
    (h : ∀ t, ρ.mayShow w t → Q (cfg.formatTime t) (w.setClock t)) :
    wp ρ.env.every (nowFormatted cfg) Q w := by
  rw [nowFormatted, wp_bind]
  exact wp_timeNow h

/-- Without workflows nothing is advanced. -/
theorem wp_advanceWorkflowOf {id : String} {st : JobState} {result : Option String}
    (hw : w.store.workflows = ∅) (Q : Unit → World → Prop) :
    wp ρ.env.every (advanceWorkflowOf cfg id st result) Q w = Q () w := by
  rw [advanceWorkflowOf, wp_bind]
  cases hr : w.store.jobs.lookup id with
  | none =>
    rw [wp_getJob_none hρ hr]
    rfl
  | some r =>
    rw [wp_getJob_some hρ hr]
    simp only [wp_ite, wp_pure, wp_bind]
    split
    · rfl
    · have hnone : w.store.workflows.lookup r.workflowID = none := by rw [hw]; rfl
      rw [advanceWorkflow, wp_bind, wp_getWorkflowRecord_none hρ hnone]
      rfl

end OjsSqs
