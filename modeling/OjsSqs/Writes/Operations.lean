import OjsSqs.Lifecycle.Arrive
import OjsSqs.Writes.Rewrite

/-! # What each operation writes

The lemma of an operation says which writes are enough for it. Where a client
or a new identifier decides which job is stored, the writes have to include
the jobs of every identifier. -/
namespace OjsSqs
open Calls

section
variable {cfg : Config} {W : Writes}

theorem apart_push {job : Job} (hc : ∀ id now, W.rewrite id (.cancel now))
    (hs : ∀ job, W.Stores job) : Apart cfg W (push cfg job) := by
  refine Prog.only_bind apart_timeNow fun now => ?_
  refine Prog.only_bind (apart_assignID _) fun id => ?_
  simp only
  split
  · exact apart_pushNew (hs _)
  · refine Prog.only_bind (apart_pushUnique hc) fun a => ?_
    split
    · exact Prog.only_pure _
    · exact Prog.only_pure _
    · exact apart_pushNew (hs _)

/-! ## PushBatch -/

theorem apart_storeBatch (hs : ∀ job, W.Stores job) (now : Time) (jobs : List Job) :
    ∀ done, Apart cfg W (storeBatch cfg now jobs done) := by
  induction jobs with
  | nil => exact fun done => Prog.only_pure _
  | cons job jobs ih =>
    intro done
    refine Prog.only_bind (apart_assignID _) fun id => ?_
    refine Prog.only_bind (apart_request (c := .putJobItem _) ?_ rfl) fun a => ?_
    · exact (hs { job with id := id, attempt := 0, createdAt := cfg.formatTime now }).create
        .available (cfg.formatTime now) (.inl rfl)
    · split
      · exact Prog.only_pure _
      · refine Prog.only_bind (apart_registerQueue _) fun a => ?_
        split
        · exact Prog.only_pure _
        · exact ih _

theorem encodeChunk_bodies {chunk : List Job} {entries : List OutMessage}
    (h : encodeChunk cfg chunk = .ok entries) : entries.map (·.body) = chunk := by
  induction chunk generalizing entries with
  | nil =>
    cases h
    rfl
  | cons job jobs ih =>
    rw [encodeChunk] at h
    split at h
    · cases h
    · rename_i body hbody
      split at h
      · cases h
      · rename_i rest hrest
        cases h
        rw [List.map_cons, ih hrest, encodeJob_body hbody]
        rfl

section
variable {P : Call → Prop}

theorem sendChunks_calls (url : String) {chunks : List (List Job)}
    (hsend : ∀ entries : List OutMessage, (∀ m ∈ entries, m.body ∈ chunks.flatten) →
      P (.sqs (.sendMessageBatch url entries))) : (sendChunks cfg url chunks).Only P := by
  induction chunks with
  | nil => exact Prog.only_pure _
  | cons chunk chunks ih =>
    rw [sendChunks]
    cases he : encodeChunk cfg chunk with
    | error e => exact Prog.only_pure _
    | ok entries =>
      refine Prog.only_bind (Prog.only_perform (hsend entries fun m hm => ?_)) fun a => ?_
      · refine List.mem_append_left _ ?_
        rw [← encodeChunk_bodies he]
        exact List.mem_map_of_mem hm
      · split
        · exact Prog.only_pure _
        · exact Prog.only_pure _
        · exact ih fun entries hin => hsend entries fun m hm => List.mem_append_right _ (hin m hm)

/-- The requests of a batch carry its jobs. -/
theorem sendGroups_calls {jobs : List Job} (hopen : ∀ queue, (getOrCreateQueueURL cfg queue).Only P)
    (hsend : ∀ (url : String) (entries : List OutMessage), (∀ m ∈ entries, m.body ∈ jobs) →
      P (.sqs (.sendMessageBatch url entries)))
    (queues : List String) : (sendGroups cfg jobs queues).Only P := by
  induction queues with
  | nil => exact Prog.only_pure _
  | cons queue queues ih =>
    refine Prog.only_bind (hopen queue) fun a => ?_
    split
    · exact Prog.only_pure _
    · refine Prog.only_bind (sendChunks_calls _ fun entries hin => hsend _ entries fun m hm => ?_)
        fun a => ?_
      · have hmem := hin m hm
        rw [chunksOf_flatten] at hmem
        exact List.mem_of_mem_filter hmem
      · split
        · exact Prog.only_pure _
        · exact ih

end

theorem apart_sendGroups {jobs : List Job} (hs : ∀ job ∈ jobs, W.send job)
    (queues : List String) : Apart cfg W (sendGroups cfg jobs queues) :=
  sendGroups_calls (fun _ => apart_getOrCreateQueueURL _)
    (fun _ _ hin => ⟨fun m hm => hs m.body (hin m hm), rfl⟩) queues

theorem apart_pushBatch {jobs : List Job} (hs : ∀ job, W.Stores job) :
    Apart cfg W (pushBatch cfg jobs) := by
  have hsend : ∀ job, W.send job := fun job => (hs job).send job.state job.enqueuedAt
  rw [pushBatch]
  split
  · exact Prog.only_pure _
  · split
    · exact Prog.only_pure _
    · refine Prog.only_bind apart_timeNow fun now => ?_
      refine Prog.only_bind (apart_storeBatch hs now jobs []) fun a => ?_
      split
      · exact Prog.only_pure _
      · refine Prog.only_bind (Prog.only_bind (Prog.only_perform ⟨trivial, rfl⟩) fun order =>
          apart_sendGroups (fun job _ => hsend job) order) fun a => ?_
        split <;> exact Prog.only_pure _

/-! ## Fetch -/

theorem apart_fetch {fuel : Nat} {queues : List String} {count vis : Int} {worker : String}
    (hx : ∀ id, W.rewrite id .expire) (ha : ∀ id now d, W.rewrite id (.activate now worker d)) :
    Apart cfg W (fetch cfg fuel queues count worker vis) := by
  refine (fetch_calls cfg fuel queues count worker vis).mono fun c hc => ?_
  cases c with
  | dynamo d =>
    cases d with
    | updateJobItem id s us sk pk =>
      rcases hc with ⟨rfl, rfl⟩ | ⟨rfl, now, d, rfl⟩
      · exact ⟨⟨.expire, hx id, rfl, rfl⟩, rfl⟩
      · exact ⟨⟨.activate now worker d, ha id now d, rfl, rfl⟩, rfl⟩
    | _ => first | exact ⟨trivial, rfl⟩ | cases hc
  | sqs c => cases c <;> first | exact ⟨trivial, rfl⟩ | cases hc
  | proc c => exact ⟨trivial, rfl⟩

/-! ## Workflows -/

theorem within_updateWorkflow (id : String) (us : List WorkflowUpdate) :
    Within cfg W (updateWorkflow id us) := by
  rw [updateWorkflow]
  split
  · exact Prog.only_pure _
  · exact within_request (c := .updateWorkflowItem id us) trivial rfl

theorem within_getWorkflowRecord {id : String} : Within cfg W (getWorkflowRecord id) := by
  refine Prog.only_bind (Prog.only_perform ⟨trivial, rfl⟩) fun a => ?_
  split <;> exact Prog.only_pure _

theorem within_storeResult (wf : String) (step : Int) (result : Option String) :
    Within cfg W (storeResult wf step result) := by
  cases result with
  | none => exact Prog.only_pure _
  | some res =>
    rw [storeResult]
    split
    · exact Prog.only_pure _
    · exact Prog.only_bind (within_request (c := .putWorkflowResultItem wf step res) trivial rfl)
        fun _ => Prog.only_pure _

/-- A job without a unique policy, of a new identifier. -/
theorem apart_pushPlain (hs : ∀ job, W.Stores job) {job : Job} (hu : job.unique = none) :
    Apart cfg W (push cfg job) := by
  refine Prog.only_bind apart_timeNow fun now => ?_
  refine Prog.only_bind (apart_assignID _) fun id => ?_
  simp only [hu]
  exact apart_pushNew (hs _)

theorem within_pushWorkflowJob (hs : ∀ job, W.Stores job) (wf : String) {job : Job}
    (hu : job.unique = none) : Within cfg W (pushWorkflowJob cfg wf job) := by
  refine Prog.only_bind (apart_pushPlain hs hu).within fun a => ?_
  split
  · exact Prog.only_pure _
  · exact Prog.only_bind (within_request (c := .putWorkflowJobItem wf _) trivial rfl) fun _ =>
      Prog.only_pure _

theorem within_fireIfDefined (hs : ∀ job, W.Stores job) (cb : Option WorkflowCallback) :
    Within cfg W (fireIfDefined cfg cb) := by
  cases cb with
  | none => exact Prog.only_pure _
  | some cb => exact Prog.only_bind (apart_pushPlain hs rfl).within fun _ => Prog.only_pure _

theorem within_advanceWorkflowOf (hs : ∀ job, W.Stores job) (id : String) (s : JobState)
    (result : Option String) : Within cfg W (advanceWorkflowOf cfg id s result) := by
  have hchain : ∀ wfID wf step failed, Within cfg W (advanceChain cfg wfID wf step failed) := by
    intro wfID wf step failed
    rw [advanceChain]
    split
    · refine Prog.only_bind apart_nowFormatted.within fun now => ?_
      exact Prog.only_bind (within_updateWorkflow _ _) fun _ => Prog.only_pure _
    · split
      · refine Prog.only_bind apart_nowFormatted.within fun now => ?_
        exact Prog.only_bind (within_updateWorkflow _ _) fun _ => Prog.only_pure _
      · refine Prog.only_bind (within_updateWorkflow _ _) fun _ => ?_
        rw [enqueueChainStep]
        split
        · exact Prog.only_pure _
        · split
          · exact Prog.only_pure _
          · refine Prog.only_bind (within_request (c := .queryWorkflowResults wfID) trivial rfl)
              fun a => ?_
            exact within_pushWorkflowJob hs wfID rfl
  have hgroup : ∀ wfID wf failed, Within cfg W (advanceGroup cfg wfID wf failed) := by
    intro wfID wf failed
    refine Prog.only_bind (within_updateWorkflow _ _) fun _ => ?_
    split
    · refine Prog.only_bind apart_nowFormatted.within fun now => ?_
      refine Prog.only_bind (within_updateWorkflow _ _) fun _ => ?_
      split
      · refine Prog.only_bind ?_ fun _ => Prog.only_pure _
        rw [fireBatchCallbacks]
        split
        · exact Prog.only_pure _
        · refine Prog.only_bind (within_fireIfDefined hs _) fun _ => ?_
          split <;> exact within_fireIfDefined hs _
      · exact Prog.only_pure _
    · exact Prog.only_pure _
  refine Prog.only_bind (apart_getJob id).within fun a => ?_
  split
  · exact Prog.only_pure _
  · split
    · exact Prog.only_pure _
    · refine Prog.only_bind ?_ fun _ => Prog.only_pure _
      refine Prog.only_bind within_getWorkflowRecord fun a => ?_
      split
      · exact Prog.only_pure _
      · split
        · exact Prog.only_pure _
        · refine Prog.only_bind (apart_getJob _).within fun a => ?_
          split
          · exact Prog.only_pure _
          · refine Prog.only_bind (within_storeResult _ _ _) fun _ => ?_
            split
            · exact hchain _ _ _ _
            · exact hgroup _ _ _

/-! ## Ack and Nack -/

theorem within_ack {id : String} {result : Option String}
    (h : ∀ now, W.rewrite id (.complete now result))
    (hadv : Within cfg W (advanceWorkflowOf cfg id .completed result)) :
    Within cfg W (ack cfg id result) := by
  refine Prog.only_bind (apart_getJob id).within fun a => ?_
  split
  · exact Prog.only_pure _
  · split
    · exact Prog.only_pure _
    · refine Prog.only_bind apart_nowFormatted.within fun now => ?_
      refine Prog.only_bind (apart_dropMessage _).within fun _ => ?_
      refine Prog.only_bind (apart_updateJobState (.complete now result) (h now)).within fun a => ?_
      split
      · exact Prog.only_pure _
      · refine Prog.only_bind (within_request (c := .addCompleted _) trivial rfl) fun _ => ?_
        refine Prog.only_bind hadv fun _ => ?_
        exact Prog.only_bind (apart_info id).within fun _ => Prog.only_pure _

theorem apart_nackRequeue {id : String} {now : Time} {r : JobRecord}
    (h : ∀ t, W.rewrite id (.requeue t)) : Apart cfg W (nackRequeue cfg now r id) := by
  refine Prog.only_bind (apart_releaseMessage r) fun a => ?_
  split
  · exact Prog.only_pure _
  · refine Prog.only_bind (apart_updateJobState (.requeue _) (h _)) fun a => ?_
    split
    · exact Prog.only_pure _
    · refine Prog.only_bind (apart_info id) fun a => ?_
      split <;> exact Prog.only_pure _

theorem apart_markDeadLetter {id : String} (policy : Option RetryPolicy) (hb : W.bury id) :
    Apart cfg W (markDeadLetter policy id) := by
  rw [markDeadLetter]
  split
  · exact apart_request (c := .putDeadLetterItem id) hb rfl
  · exact Prog.only_pure _

theorem within_nackDiscard {id : String} {now : Time} {r : JobRecord} {e : Option JobError}
    (h : ∀ t, W.rewrite id (.discard t r e)) (hb : W.bury id)
    (hadv : Within cfg W (advanceWorkflowOf cfg id .discarded none)) :
    Within cfg W (nackDiscard cfg now r id e) := by
  refine Prog.only_bind (apart_deleteMessageOf r _ _).within fun a => ?_
  split
  · exact Prog.only_pure _
  · refine Prog.only_bind (apart_updateJobState (.discard _ r e) (h _)).within fun a => ?_
    split
    · exact Prog.only_pure _
    · refine Prog.only_bind (apart_markDeadLetter _ hb).within fun a => ?_
      split
      · exact Prog.only_pure _
      · refine Prog.only_bind hadv fun _ => ?_
        refine Prog.only_bind (apart_info id).within fun a => ?_
        split <;> exact Prog.only_pure _

theorem apart_nackRetry {id : String} {now : Time} {r : JobRecord} {e : Option JobError}
    (h : ∀ ms, W.rewrite id (.retry ms r e)) (hm : W.mark .retry id) :
    Apart cfg W (nackRetry cfg now r id e) := by
  refine Prog.only_bind (apart_deleteMessageOf r _ _) fun a => ?_
  split
  · exact Prog.only_pure _
  · refine Prog.only_bind (apart_updateJobState (.retry _ r e) (h _)) fun a => ?_
    split
    · exact Prog.only_pure _
    · refine Prog.only_bind (apart_request (c := .putDueItem .retry id _) hm rfl) fun a => ?_
      split
      · exact Prog.only_pure _
      · refine Prog.only_bind (apart_info id) fun a => ?_
        split <;> exact Prog.only_pure _

/-- The writes include those of a Nack of the job. -/
structure Writes.Nacks (W : Writes) (id : String) (e : Option JobError) (again : Bool) : Prop where
  requeue : again = true → ∀ t, W.rewrite id (.requeue t)
  discard : again = false → ∀ t r, W.rewrite id (.discard t r e)
  retry : again = false → ∀ ms r, W.rewrite id (.retry ms r e)
  mark : W.mark .retry id
  bury : W.bury id

theorem within_nack {id : String} {e : Option JobError} {requeue : Bool} (h : W.Nacks id e requeue)
    (hadv : Within cfg W (advanceWorkflowOf cfg id .discarded none)) :
    Within cfg W (nack cfg id e requeue) := by
  refine Prog.only_bind (apart_getJob id).within fun a => ?_
  split
  · exact Prog.only_pure _
  · split
    · exact Prog.only_pure _
    · refine Prog.only_bind apart_timeNow.within fun now => ?_
      split
      · rename_i hq
        exact (apart_nackRequeue (h.requeue hq)).within
      · rename_i hq
        have hq := Bool.eq_false_iff.mpr hq
        split
        · exact within_nackDiscard (fun t => h.discard hq t _) h.bury hadv
        · exact (apart_nackRetry (fun ms => h.retry hq ms _) h.mark).within

/-! ## The promoters and the dead letter set -/

theorem apart_promoteOne {i : DueIndex} {id : String} (h : ∀ t, W.rewrite id (.promote t))
    (hs : ∀ t r, W.send (promotedJob cfg t r)) : Apart cfg W (promoteOne cfg i id) := by
  refine Prog.only_bind (apart_getJob id) fun a => ?_
  split
  · exact Prog.only_pure _
  · refine Prog.only_bind (apart_request (c := .deleteDueItem i id) trivial rfl) fun a => ?_
    split
    · exact Prog.only_pure _
    · refine Prog.only_bind apart_timeNow fun now => ?_
      refine Prog.only_bind (apart_updateJobState (.promote now) (h now)) fun a => ?_
      split
      · exact Prog.only_pure _
      · refine Prog.only_bind (apart_sendToSQS (hs _ _)) fun a => ?_
        split <;> exact Prog.only_pure _

theorem apart_promote {i : DueIndex} (h : ∀ id t, W.rewrite id (.promote t))
    (hs : ∀ t r, W.send (promotedJob cfg t r)) : Apart cfg W (promote cfg i) := by
  have hall : ∀ ids first, Apart cfg W (promoteAll cfg i ids first) := by
    intro ids
    induction ids with
    | nil => exact fun first => Prog.only_pure _
    | cons id ids ih =>
      exact fun first => Prog.only_bind (apart_promoteOne (h id) hs) fun _ => ih _
  have hdue : ∀ now, Apart cfg W (getDueJobs i now) := by
    intro now
    refine Prog.only_bind (Prog.only_perform ⟨trivial, rfl⟩) fun a => ?_
    split
    · exact Prog.only_pure _
    · refine Prog.only_bind (Prog.only_perform ⟨trivial, rfl⟩) fun a => ?_
      split <;> exact Prog.only_pure _
    · exact Prog.only_pure _
  refine Prog.only_bind apart_timeNow fun now => ?_
  refine Prog.only_bind (hdue _) fun a => ?_
  split
  · exact Prog.only_pure _
  · exact hall _ _

theorem apart_retryDeadLetter {id : String} (h : ∀ t, W.rewrite id (.revive t))
    (hs : ∀ t r, W.send (deadLetterJob cfg t r)) : Apart cfg W (retryDeadLetter cfg id) := by
  refine Prog.only_bind (apart_request (c := .getDeadLetterItem id) trivial rfl) fun a => ?_
  split
  · refine Prog.only_bind apart_timeNow fun now => ?_
    refine Prog.only_bind (apart_getJob id) fun a => ?_
    split
    · exact Prog.only_pure _
    · refine Prog.only_bind (apart_request (c := .deleteDeadLetterItem id) trivial rfl) fun _ => ?_
      refine Prog.only_bind (apart_updateJobState (.revive now) (h now)) fun _ => ?_
      refine Prog.only_bind (apart_sendToSQS (hs _ _)) fun _ => ?_
      exact apart_info id
  · exact Prog.only_pure _

theorem apart_deleteDeadLetter (id : String) : Apart cfg W (deleteDeadLetter id) := by
  refine Prog.only_bind (apart_request (c := .getDeadLetterItem id) trivial rfl) fun a => ?_
  split
  · exact apart_request (c := .deleteDeadLetterItem id) trivial rfl
  · exact Prog.only_pure _

end

/-- A goroutine of the backend. -/
theorem apart_ensureDLQ {cfg : Config} {W : Writes} (queue url : String) :
    Apart cfg W (ensureDLQ cfg queue url) := by
  refine Prog.only_bind (Prog.only_perform ⟨trivial, rfl⟩) fun a => ?_
  split
  · exact Prog.only_pure _
  · refine Prog.only_bind (Prog.only_perform ⟨trivial, rfl⟩) fun a => ?_
    split
    · exact Prog.only_pure _
    · exact Prog.only_pure _
    · exact Prog.only_bind (Prog.only_perform ⟨trivial, rfl⟩) fun _ => Prog.only_pure _

theorem stores_all (job : Job) : Writes.all.Stores job :=
  ⟨fun _ _ _ => trivial, trivial, fun _ _ => trivial⟩

/-- Every operation updates records by rewrites only, and leaves the crons alone. -/
theorem op_within (cfg : Config) (o : Op) : Within cfg Writes.all (o.prog cfg) := by
  have hadv := fun id s result => @within_advanceWorkflowOf cfg _ stores_all id s result
  cases o with
  | push job => exact (apart_push (fun _ _ => trivial) stores_all).within
  | pushBatch jobs => exact (apart_pushBatch stores_all).within
  | fetch fuel queues count worker vis =>
    exact (apart_fetch (fun _ => trivial) fun _ _ _ => trivial).within
  | ack id result => exact within_ack (fun _ => trivial) (hadv id _ _)
  | nack id e requeue =>
    exact within_nack ⟨fun _ _ => trivial, fun _ _ _ => trivial, fun _ _ _ => trivial, trivial,
      trivial⟩ (hadv id _ _)
  | cancel id => exact (apart_cancel fun _ => trivial).within
  | promoteScheduled => exact (apart_promote (fun _ _ => trivial) fun _ _ => trivial).within
  | promoteRetries => exact (apart_promote (fun _ _ => trivial) fun _ _ => trivial).within
  | retryDeadLetter id => exact (apart_retryDeadLetter (fun _ => trivial) fun _ _ => trivial).within
  | deleteDeadLetter id => exact (apart_deleteDeadLetter id).within

end OjsSqs
