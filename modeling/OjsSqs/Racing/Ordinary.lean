import OjsSqs.Racing.Footprint
import OjsSqs.Sqs.QueueOps

/-! # The calls most operations make

An operation that neither stores a job nor sends one nor touches a workflow
makes ordinary calls only. So do the parts of the others that come before and
after these. What no ordinary call changes is shown once, for all of them. -/
namespace OjsSqs
open Calls

/-- The call stores no new job, takes no key, sends nothing and writes no
workflow, cron or pause. -/
def Call.ordinary : Call → Bool
  | .dynamo (.getJobItem _) | .dynamo (.updateJobItem _ _ _ _ _) | .dynamo (.putQueueItem _)
  | .dynamo (.getQueueItem _) | .dynamo (.addCompleted _) | .dynamo (.getUniqueItem _)
  | .dynamo (.getWorkflowItem _) | .dynamo (.putDeadLetterItem _)
  | .dynamo (.deleteDeadLetterItem _) | .dynamo (.getDeadLetterItem _)
  | .dynamo (.putDueItem _ _ _) | .dynamo (.queryDue _ _) | .dynamo (.scanDue _ _)
  | .dynamo (.deleteDueItem _ _) => true
  | .dynamo _ | .sqs (.sendMessage _ _) | .sqs (.sendMessageBatch _ _)
  | .proc .newUUIDv7 => false
  | _ => true

/-- It makes ordinary calls only. -/
abbrev Ordinary {α : Type} (p : M α) : Prop := p.Only (·.ordinary = true)

section
variable (cfg : Config)

theorem ordinary_request {context : String} {c : DynamoCall} (h : (Call.dynamo c).ordinary = true) :
    Ordinary (request context c) := only_request h

theorem ordinary_getJob (id : String) : Ordinary (getJob id) := only_getJob rfl

theorem ordinary_updateJobState (id : String) (s : JobState) (us : List JobUpdate) :
    Ordinary (updateJobState id s us) := only_updateJobState rfl fun _ => rfl

theorem ordinary_info (id : String) : Ordinary (info id) := by
  refine Prog.only_bind (ordinary_getJob id) fun a => ?_
  split <;> exact Prog.only_pure _

theorem ordinary_timeNow : Ordinary timeNow := Prog.only_perform rfl

theorem ordinary_nowFormatted : Ordinary (nowFormatted cfg) :=
  Prog.only_bind ordinary_timeNow fun _ => Prog.only_pure _

theorem ordinary_getDueJobs (index : DueIndex) (nowMs : Int) : Ordinary (getDueJobs index nowMs) := by
  refine Prog.only_bind (Prog.only_perform rfl) fun a => ?_
  split
  · exact Prog.only_pure _
  · refine Prog.only_bind (Prog.only_perform rfl) fun a => ?_
    split <;> exact Prog.only_pure _
  · exact Prog.only_pure _

/-- Resolving a queue, and one request to it. -/
theorem ordinary_getOrCreateQueueURL (queue : String) :
    Ordinary (getOrCreateQueueURL cfg queue) :=
  only_queueURL cfg queue rfl (fun _ => rfl) (fun _ => rfl) fun _ => rfl

theorem ordinary_dropMessage (r : JobRecord) : Ordinary (dropMessage cfg r) := by
  rw [dropMessage]
  split
  · exact Prog.only_pure _
  · refine Prog.only_bind (ordinary_getOrCreateQueueURL cfg _) fun a => ?_
    split
    · exact Prog.only_pure _
    · exact Prog.only_bind (Prog.only_perform rfl) fun _ => Prog.only_pure _

theorem ordinary_deleteMessageOf (r : JobRecord) (step did : String) :
    Ordinary (deleteMessageOf cfg r step did) := by
  rw [deleteMessageOf]
  split
  · exact Prog.only_pure _
  · refine Prog.only_bind (ordinary_getOrCreateQueueURL cfg _) fun a => ?_
    split
    · exact Prog.only_pure _
    · refine Prog.only_bind (Prog.only_perform rfl) fun a => ?_
      split <;> exact Prog.only_pure _

theorem ordinary_releaseMessage (r : JobRecord) : Ordinary (releaseMessage cfg r) := by
  rw [releaseMessage]
  split
  · exact Prog.only_pure _
  · refine Prog.only_bind (ordinary_getOrCreateQueueURL cfg _) fun a => ?_
    split
    · exact Prog.only_pure _
    · refine Prog.only_bind (Prog.only_perform rfl) fun a => ?_
      split <;> exact Prog.only_pure _

theorem ordinary_cancel (id : String) : Ordinary (cancel cfg id) := by
  refine Prog.only_bind (ordinary_getJob id) fun a => ?_
  split
  · exact Prog.only_pure _
  · split
    · exact Prog.only_pure _
    · refine Prog.only_bind (ordinary_nowFormatted cfg) fun now => ?_
      refine Prog.only_bind (ordinary_dropMessage cfg _) fun _ => ?_
      refine Prog.only_bind (ordinary_request (c := .deleteDueItem .scheduled id) rfl) fun _ => ?_
      refine Prog.only_bind (ordinary_request (c := .deleteDueItem .retry id) rfl) fun _ => ?_
      exact Prog.only_bind (ordinary_updateJobState id _ _) fun _ => Prog.only_pure _

/-- The check for the holder of a unique key. -/
theorem ordinary_findExisting (policy : UniquePolicy) (fp : String) :
    Ordinary (findExisting cfg policy fp) := by
  have hkey : Ordinary (getUniqueKey fp) := by
    refine Prog.only_bind (Prog.only_perform rfl) fun a => ?_
    split <;> exact Prog.only_pure _
  refine Prog.only_bind hkey fun a => ?_
  split
  · exact Prog.only_pure _
  · split
    · exact Prog.only_pure _
    · refine Prog.only_bind (ordinary_getJob _) fun a => ?_
      split
      · exact Prog.only_pure _
      · split
        · split
          · exact Prog.only_pure _
          · split
            · exact Prog.only_pure _
            · split
              · refine Prog.only_bind (ordinary_cancel cfg _) fun a => ?_
                split
                · split <;> exact Prog.only_pure _
                · exact Prog.only_pure _
              · exact Prog.only_pure _
        · exact Prog.only_pure _

/-! ## Nack -/

theorem ordinary_nackRequeue (now : Time) (r : JobRecord) (id : String) :
    Ordinary (nackRequeue cfg now r id) := by
  refine Prog.only_bind (ordinary_releaseMessage cfg r) fun a => ?_
  split
  · exact Prog.only_pure _
  · refine Prog.only_bind (ordinary_updateJobState id _ _) fun a => ?_
    split
    · exact Prog.only_pure _
    · refine Prog.only_bind (ordinary_info id) fun a => ?_
      split <;> exact Prog.only_pure _

theorem ordinary_markDeadLetter (policy : Option RetryPolicy) (id : String) :
    Ordinary (markDeadLetter policy id) := by
  rw [markDeadLetter]
  split
  · exact ordinary_request (c := .putDeadLetterItem id) rfl
  · exact Prog.only_pure _

theorem ordinary_nackRetry (now : Time) (r : JobRecord) (id : String) (e : Option JobError) :
    Ordinary (nackRetry cfg now r id e) := by
  refine Prog.only_bind (ordinary_deleteMessageOf cfg r _ _) fun a => ?_
  split
  · exact Prog.only_pure _
  · refine Prog.only_bind (ordinary_updateJobState id _ _) fun a => ?_
    split
    · exact Prog.only_pure _
    · refine Prog.only_bind (ordinary_request (c := .putDueItem .retry id _) rfl) fun a => ?_
      split
      · exact Prog.only_pure _
      · refine Prog.only_bind (ordinary_info id) fun a => ?_
        split <;> exact Prog.only_pure _

/-! ## Fetch -/

/-- The calls of a Fetch: its receives ask for `visSec` seconds. -/
def Call.ofFetch (workerID : String) (visSec : Int) : Call → Prop
  | .dynamo (.updateJobItem _ s us _ _) =>
    s = .discarded ∧ us = [] ∨ s = .active ∧ ∃ now d, us = activeUpdates cfg now workerID d
  | .sqs (.receiveMessage _ _ sec) => sec = visSec
  | .dynamo (.getJobItem _) | .dynamo (.getQueueItem _) | .sqs (.createQueue _)
  | .sqs (.deleteMessage _ _) | .proc .now | .proc (.lookupURL _) | .proc (.cacheURL _ _)
  | .proc (.goEnsureDLQ _ _) => True
  | _ => False

section
variable (now : Time) (worker : String) (count visSec : Int)

/-- The calls about the messages of a receive. -/
theorem only_fetchMessages {P : Call → Prop} (hget : ∀ id, P (.dynamo (.getJobItem id)))
    (hdiscard : ∀ id sk pk, P (.dynamo (.updateJobItem id .discarded [] sk pk)))
    (hactive : ∀ id d sk pk,
      P (.dynamo (.updateJobItem id .active (activeUpdates cfg now worker d) sk pk)))
    (hdelete : ∀ url h, P (.sqs (.deleteMessage url h))) (url : String) (ds : List Delivery)
    (jobs : List Job) : (fetchMessages cfg now worker url count ds jobs).Only P := by
  have hone : ∀ d, (fetchMessage cfg now worker url d).Only P := by
    intro d
    rw [fetchMessage]
    split
    · exact Prog.only_pure _
    · split
      · refine Prog.only_bind (only_updateJobState (hget _) fun _ => hdiscard _ _ _) fun _ => ?_
        exact Prog.only_bind (Prog.only_perform (hdelete _ _)) fun _ => Prog.only_pure _
      · refine Prog.only_bind (only_updateJobState (hget _) fun _ => hactive _ d _ _) fun a => ?_
        split
        · exact Prog.only_pure _
        · refine Prog.only_bind (only_getJob (hget _)) fun a => ?_
          split <;> exact Prog.only_pure _
  induction ds generalizing jobs with
  | nil => exact Prog.only_pure _
  | cons d ds ih =>
    rw [fetchMessages]
    split
    · exact Prog.only_pure _
    · refine Prog.only_bind (hone d) fun a => ?_
      split <;> exact ih _

theorem fetchMessages_calls (url : String) (ds : List Delivery) (jobs : List Job) :
    (fetchMessages cfg now worker url count ds jobs).Only (Call.ofFetch cfg worker visSec) :=
  only_fetchMessages cfg now worker count (fun _ => trivial) (fun _ _ _ => .inl ⟨rfl, rfl⟩)
    (fun _ d _ _ => .inr ⟨rfl, now, d, rfl⟩) (fun _ _ => trivial) url ds jobs

theorem fetchQueue_calls (url : String) (fuel : Nat) (jobs : List Job) :
    (fetchQueue cfg now worker url count visSec fuel jobs).Only (Call.ofFetch cfg worker visSec) := by
  induction fuel generalizing jobs with
  | zero => exact Prog.only_pure _
  | succ fuel ih =>
    rw [fetchQueue]
    split
    · refine Prog.only_bind (Prog.only_perform rfl) fun a => ?_
      split
      · exact Prog.only_pure _
      · exact Prog.only_pure _
      · exact Prog.only_bind (fetchMessages_calls cfg now worker count visSec url _ jobs) fun _ => ih _
    · exact Prog.only_pure _

theorem fetchQueues_calls (fuel : Nat) (queues : List String) (jobs : List Job) :
    (fetchQueues cfg fuel now worker count visSec queues jobs).Only
      (Call.ofFetch cfg worker visSec) := by
  induction queues generalizing jobs with
  | nil => exact Prog.only_pure _
  | cons queue queues ih =>
    rw [fetchQueues]
    split
    · exact Prog.only_pure _
    · have hpaused : (isQueuePaused queue).Only (Call.ofFetch cfg worker visSec) := by
        refine Prog.only_bind (Prog.only_perform trivial) fun a => ?_
        split <;> exact Prog.only_pure _
      have hopen : (getOrCreateQueueURL cfg queue).Only (Call.ofFetch cfg worker visSec) :=
        only_queueURL cfg queue trivial (fun _ => trivial) (fun _ => trivial) fun _ => trivial
      refine Prog.only_bind hpaused fun a => ?_
      split
      · exact ih jobs
      · refine Prog.only_bind hopen fun a => ?_
        split
        · exact ih jobs
        · refine Prog.only_bind (fetchQueue_calls cfg now worker count visSec _ fuel jobs)
            fun a => ?_
          split
          · exact Prog.only_pure _
          · exact ih _

end

theorem fetch_calls (fuel : Nat) (queues : List String) (count : Int) (worker : String) (vis : Int) :
    (fetch cfg fuel queues count worker vis).Only
      (Call.ofFetch cfg worker (visTimeoutSec cfg vis)) :=
  Prog.only_bind (Prog.only_perform trivial) fun now =>
    fetchQueues_calls cfg now worker count _ fuel queues []

variable {cfg} in
theorem Call.ofFetch_ordinary {worker : String} {visSec : Int} {c : Call}
    (h : Call.ofFetch cfg worker visSec c) : c.ordinary = true := by
  cases c with
  | dynamo d => cases d <;> first | rfl | cases h
  | sqs c => cases c <;> first | rfl | cases h
  | proc c => cases c <;> first | rfl | cases h

theorem ordinary_fetch (fuel : Nat) (queues : List String) (count : Int) (worker : String)
    (vis : Int) : Ordinary (fetch cfg fuel queues count worker vis) :=
  (fetch_calls cfg fuel queues count worker vis).mono fun _ => Call.ofFetch_ordinary

/-! ## Heartbeat -/

/-- The calls of a Heartbeat: it changes a visibility to `sec` seconds. -/
def Call.ofHeartbeat (sec : Int) : Call → Prop
  | .sqs (.changeMessageVisibility _ _ visSec) => visSec = sec
  | .dynamo (.getJobItem _) | .sqs (.createQueue _) | .proc .now | .proc (.lookupURL _)
  | .proc (.cacheURL _ _) | .proc (.goEnsureDLQ _ _) => True
  | _ => False

theorem extendJob_calls (sec : Int) (id : String) :
    (extendJob cfg sec id).Only (Call.ofHeartbeat sec) := by
  refine Prog.only_bind (only_getJob trivial) fun a => ?_
  cases a with
  | error e => exact Prog.only_pure _
  | ok record =>
    simp only
    split
    · exact Prog.only_pure _
    · split
      · exact Prog.only_pure _
      · refine Prog.only_bind (only_queueURL cfg _ trivial (fun _ => trivial) (fun _ => trivial)
          fun _ => trivial) fun a => ?_
        cases a with
        | error e => exact Prog.only_pure _
        | ok url => exact Prog.only_bind (Prog.only_perform rfl) fun _ => Prog.only_pure _

theorem extendJobs_calls (sec : Int) (ids : List String) :
    (extendJobs cfg sec ids).Only (Call.ofHeartbeat sec) := by
  induction ids with
  | nil => exact Prog.only_pure _
  | cons id ids ih =>
    exact Prog.only_bind (extendJob_calls cfg sec id) fun _ =>
      Prog.only_bind ih fun _ => Prog.only_pure _

/-- `ensureDLQ` leaves the store alone. -/
theorem only_ensureDLQ (queue url : String) :
    (ensureDLQ cfg queue url).Only fun c => c.ordinary = true ∧ c.isAside = true := by
  refine Prog.only_bind (Prog.only_perform ⟨rfl, rfl⟩) fun a => ?_
  split
  · exact Prog.only_pure _
  · refine Prog.only_bind (Prog.only_perform ⟨rfl, rfl⟩) fun a => ?_
    split
    · exact Prog.only_pure _
    · exact Prog.only_pure _
    · exact Prog.only_bind (Prog.only_perform ⟨rfl, rfl⟩) fun _ => Prog.only_pure _

theorem ordinary_ensureDLQ (queue url : String) : Ordinary (ensureDLQ cfg queue url) :=
  (only_ensureDLQ cfg queue url).mono fun _ hc => hc.1

/-- A stretch that leaves the store alone. -/
theorem wp_aside {ρ : Rules} {α : Type} {p : M α} {w : World} (hp : p.Only (·.isAside = true)) :
    wp ρ.env.every p (fun _ w' => w'.store = w.store) w := by
  refine hp.keeps (fun w' : World => w'.store = w.store) (fun c w₁ a w₂ hc hs he => ?_) rfl
  exact (Rules.env_aside (fun d hd => by rw [hd] at hc; cases hc) he).trans hs

end

end OjsSqs
