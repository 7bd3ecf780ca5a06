import OjsSqs.Racing.Ordinary
import OjsSqs.Sqs.Scheduling

/-! # What the operations write

Each operation passes maps of its own to `UpdateJobState`. A `Rewrite` is one
of them, with what it is made of. `Writes` says which rewrites a program may
make and which jobs it may store, send, mark or bury; each program of the
backend is summed up once, by the writes it needs. -/
namespace OjsSqs
open Calls

/-- The updates of a job's record, one for each call of `UpdateJobState`. -/
inductive Rewrite where
  | expire
  | activate (now : Time) (workerID : String) (d : Delivery)
  | complete (now : String) (result : Option String)
  | requeue (enqueuedAt : String)
  | discard (discardedAt : String) (record : JobRecord) (jobErr : Option JobError)
  | retry (backoffMs : Int) (record : JobRecord) (jobErr : Option JobError)
  | cancel (now : String)
  | promote (now : Time)
  | revive (now : Time)

namespace Rewrite

/-- The new state. -/
def state : Rewrite → JobState
  | .expire | .discard _ _ _ => .discarded
  | .activate _ _ _ => .active
  | .complete _ _ => .completed
  | .requeue _ | .promote _ | .revive _ => .available
  | .retry _ _ _ => .retryable
  | .cancel _ => .cancelled

/-- The map. -/
def updates (cfg : Config) : Rewrite → List JobUpdate
  | .expire => []
  | .activate now workerID d => activeUpdates cfg now workerID d
  | .complete now result => ackUpdates now result
  | .requeue enqueuedAt => requeueUpdates enqueuedAt
  | .discard discardedAt record jobErr => discardUpdates discardedAt record jobErr
  | .retry backoffMs record jobErr => retryUpdates backoffMs record jobErr
  | .cancel now => [.state .cancelled, .cancelledAt now, .sqsReceiptHandle none]
  | .promote now => promoteUpdates cfg now
  | .revive now => deadLetterUpdates cfg now

end Rewrite

/-- What a program may write of the jobs: how records may be rewritten, and
which jobs may be stored, sent, marked as due and added to the dead letter
set. `carry` says with which errors a client's job may come. -/
structure Writes where
  rewrite : String → Rewrite → Prop := fun _ _ => False
  create : JobRecord → Prop := fun _ => False
  carry : List RawMessage → Prop := fun _ => False
  send : Job → Prop := fun _ => False
  mark : DueIndex → String → Prop := fun _ _ => False
  bury : String → Prop := fun _ => False

/-- Any writes. -/
def Writes.all : Writes where
  rewrite _ _ := True
  create _ := True
  carry _ := True
  send _ := True
  mark _ _ := True
  bury _ := True

/-- The calls that stay within the writes. -/
def Writes.allows (cfg : Config) (W : Writes) : Call → Prop
  | .dynamo (.updateJobItem id s us _ _) => ∃ x, W.rewrite id x ∧ s = x.state ∧ us = x.updates cfg
  | .dynamo (.putJobItem r) => W.create r
  | .dynamo (.putDueItem i id _) => W.mark i id
  | .dynamo (.putDeadLetterItem id) => W.bury id
  | .sqs (.sendMessage _ m) => W.send m.body
  | .sqs (.sendMessageBatch _ ms) => ∀ m ∈ ms, W.send m.body
  | _ => True

/-- The call is about jobs and queues: no workflow, no cron and no pause. -/
def Call.ofJobs : Call → Bool
  | .dynamo (.putWorkflowItem _) | .dynamo (.getWorkflowItem _) | .dynamo (.updateWorkflowItem _ _)
  | .dynamo (.putWorkflowJobItem _ _) | .dynamo (.queryWorkflowJobs _)
  | .dynamo (.putWorkflowResultItem _ _ _) | .dynamo (.queryWorkflowResults _)
  | .dynamo (.putCronItem _) | .dynamo (.getCronItem _) | .dynamo (.deleteCronItem _)
  | .dynamo .scanCrons | .dynamo (.putCronLockItem _ _ _) | .dynamo (.getCronInstanceItem _)
  | .dynamo (.putCronInstanceItem _ _) | .dynamo (.setPausedItem _ _) => false
  | _ => true

/-- The call leaves the crons as they are, with their locks and instances. -/
def Call.sparesCrons : Call → Bool
  | .dynamo (.putCronItem _) | .dynamo (.deleteCronItem _) | .dynamo (.putCronLockItem _ _ _)
  | .dynamo (.putCronInstanceItem _ _) => false
  | _ => true

theorem Call.sparesCrons_of_ofJobs {c : Call} (h : c.ofJobs = true) : c.sparesCrons = true := by
  cases c with
  | dynamo d => cases d <;> first | rfl | cases h
  | sqs c => rfl
  | proc c => rfl

/-- The program makes only calls that stay within the writes and leave the
crons alone. -/
abbrev Within {α : Type} (cfg : Config) (W : Writes) (p : M α) : Prop :=
  p.Only fun c => W.allows cfg c ∧ c.sparesCrons = true

/-- It makes only calls within the writes, and only about jobs. -/
abbrev Apart {α : Type} (cfg : Config) (W : Writes) (p : M α) : Prop :=
  p.Only fun c => W.allows cfg c ∧ c.ofJobs = true

section
variable {cfg : Config} {W W' : Writes} {α : Type} {p : M α}

theorem Apart.within (h : Apart cfg W p) : Within cfg W p :=
  h.mono fun _ hc => ⟨hc.1, Call.sparesCrons_of_ofJobs hc.2⟩

theorem Apart.ofJobs (h : Apart cfg W p) : p.Only (·.ofJobs = true) := h.mono fun _ => And.right

theorem within_request {context : String} {c : DynamoCall} (h : W.allows cfg (.dynamo c))
    (hc : (Call.dynamo c).sparesCrons = true) : Within cfg W (request context c) :=
  only_request ⟨h, hc⟩

theorem apart_request {context : String} {c : DynamoCall} (h : W.allows cfg (.dynamo c))
    (hc : (Call.dynamo c).ofJobs = true) : Apart cfg W (request context c) := only_request ⟨h, hc⟩

theorem apart_getJob (id : String) : Apart cfg W (getJob id) := only_getJob ⟨trivial, rfl⟩

theorem apart_timeNow : Apart cfg W timeNow := Prog.only_perform ⟨trivial, rfl⟩

theorem apart_nowFormatted : Apart cfg W (nowFormatted cfg) :=
  Prog.only_bind apart_timeNow fun _ => Prog.only_pure _

theorem apart_registerQueue (name : String) : Apart cfg W (registerQueue name) :=
  only_registerQueue ⟨trivial, rfl⟩

theorem apart_updateJobState {id : String} (x : Rewrite) (h : W.rewrite id x) :
    Apart cfg W (updateJobState id x.state (x.updates cfg)) := by
  refine Prog.only_bind (apart_getJob id) fun a => ?_
  split
  · exact Prog.only_pure _
  · exact apart_request (c := .updateJobItem id _ _ _ _) ⟨x, h, rfl, rfl⟩ rfl

theorem apart_info (id : String) : Apart cfg W (info id) := by
  refine Prog.only_bind (apart_getJob id) fun a => ?_
  split <;> exact Prog.only_pure _

theorem apart_getOrCreateQueueURL (queue : String) :
    Apart cfg W (getOrCreateQueueURL cfg queue) :=
  only_queueURL cfg queue ⟨trivial, rfl⟩ (fun _ => ⟨trivial, rfl⟩) (fun _ => ⟨trivial, rfl⟩)
    fun _ => ⟨trivial, rfl⟩

theorem apart_sendToSQS {job : Job} (h : W.send job) : Apart cfg W (sendToSQS cfg job) :=
  sendToSQS_calls cfg (apart_getOrCreateQueueURL _) fun _ => ⟨h, rfl⟩

theorem apart_dropMessage (r : JobRecord) : Apart cfg W (dropMessage cfg r) := by
  rw [dropMessage]
  split
  · exact Prog.only_pure _
  · refine Prog.only_bind (apart_getOrCreateQueueURL _) fun a => ?_
    split
    · exact Prog.only_pure _
    · exact Prog.only_bind (Prog.only_perform ⟨trivial, rfl⟩) fun _ => Prog.only_pure _

theorem apart_deleteMessageOf (r : JobRecord) (step did : String) :
    Apart cfg W (deleteMessageOf cfg r step did) := by
  rw [deleteMessageOf]
  split
  · exact Prog.only_pure _
  · refine Prog.only_bind (apart_getOrCreateQueueURL _) fun a => ?_
    split
    · exact Prog.only_pure _
    · refine Prog.only_bind (Prog.only_perform ⟨trivial, rfl⟩) fun a => ?_
      split <;> exact Prog.only_pure _

theorem apart_releaseMessage (r : JobRecord) : Apart cfg W (releaseMessage cfg r) := by
  rw [releaseMessage]
  split
  · exact Prog.only_pure _
  · refine Prog.only_bind (apart_getOrCreateQueueURL _) fun a => ?_
    split
    · exact Prog.only_pure _
    · refine Prog.only_bind (Prog.only_perform ⟨trivial, rfl⟩) fun a => ?_
      split <;> exact Prog.only_pure _

/-! ## Cancel and Push -/

theorem apart_cancel {id : String} (h : ∀ now, W.rewrite id (.cancel now)) :
    Apart cfg W (cancel cfg id) := by
  refine Prog.only_bind (apart_getJob id) fun a => ?_
  split
  · exact Prog.only_pure _
  · split
    · exact Prog.only_pure _
    · refine Prog.only_bind apart_nowFormatted fun now => ?_
      refine Prog.only_bind (apart_dropMessage _) fun _ => ?_
      refine Prog.only_bind (apart_request (c := .deleteDueItem .scheduled id) trivial rfl) fun _ => ?_
      refine Prog.only_bind (apart_request (c := .deleteDueItem .retry id) trivial rfl) fun _ => ?_
      exact Prog.only_bind (apart_updateJobState (.cancel now) (h now)) fun _ => Prog.only_pure _

/-- A Push that replaces cancels the holder of its key. -/
theorem apart_pushUnique {policy : UniquePolicy} {job : Job}
    (h : ∀ id now, W.rewrite id (.cancel now)) : Apart cfg W (pushUnique cfg policy job) := by
  have hkey : ∀ fp, Apart cfg W (getUniqueKey fp) := by
    intro fp
    refine Prog.only_bind (Prog.only_perform ⟨trivial, rfl⟩) fun a => ?_
    split <;> exact Prog.only_pure _
  have hresolve : ∀ fp id, Apart cfg W (resolveConflict cfg policy fp id) := by
    intro fp id
    refine Prog.only_bind (apart_getJob id) fun a => ?_
    split
    · exact Prog.only_pure _
    · split
      · split
        · exact Prog.only_pure _
        · split
          · exact Prog.only_pure _
          · split
            · refine Prog.only_bind (apart_cancel (h id)) fun a => ?_
              split
              · split <;> exact Prog.only_pure _
              · exact Prog.only_pure _
            · exact Prog.only_pure _
      · exact Prog.only_pure _
  have hclaim : ∀ fp, Apart cfg W (claimUniqueKey cfg policy fp job.id) := by
    intro fp
    refine Prog.only_bind (Prog.only_bind apart_timeNow fun now => ?_) fun a => ?_
    · exact apart_request (c := .putUniqueItem fp job.id _) trivial rfl
    · split
      · split <;> exact Prog.only_pure _
      · exact Prog.only_pure _
  refine Prog.only_bind (Prog.only_bind (hkey _) fun a => ?_) fun a => ?_
  · split
    · exact Prog.only_pure _
    · split
      · exact Prog.only_pure _
      · exact hresolve _ _
  · split
    · exact Prog.only_pure _
    · exact Prog.only_pure _
    · refine Prog.only_bind (hclaim _) fun a => ?_
      split <;> exact Prog.only_pure _

/-- The writes include those of storing and sending the job, available or
scheduled, and enqueued at any time. -/
structure Writes.Stores (W : Writes) (job : Job) : Prop where
  create : ∀ s t, s = .available ∨ s = .scheduled →
    W.create (jobToRecord { job with state := s, enqueuedAt := t })
  mark : W.mark .scheduled job.id
  send : ∀ s t, W.send { job with state := s, enqueuedAt := t }

theorem apart_pushNew {now : Time} {job : Job} (h : W.Stores job) :
    Apart cfg W (pushNew cfg now job) :=
  pushNew_calls cfg now job (fun s t hs => ⟨h.create s t hs, rfl⟩) (fun _ => ⟨h.mark, rfl⟩)
    ⟨trivial, rfl⟩ (apart_getOrCreateQueueURL _) fun s t _ => ⟨h.send s t, rfl⟩

theorem apart_assignID (job : Job) : Apart cfg W (assignID job) := by
  rw [assignID]
  split
  · exact Prog.only_perform ⟨trivial, rfl⟩
  · exact Prog.only_pure _

end

end OjsSqs
