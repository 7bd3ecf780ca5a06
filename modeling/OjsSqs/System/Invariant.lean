import OjsSqs.System.Bare
import OjsSqs.System.Operations
import OjsSqs.Writes.Guards

/-! # The invariant of the whole backend

Every step of the backend keeps the jobs' places in agreement. An operation on
jobs does it as in a system without workflows; an Ack or a discarding Nack goes
on to work on a workflow, and what that keeps is in `FlowKeeps`. -/
namespace OjsSqs
open Calls

/-- The regime of all runs: a cancelled job may leave a message, and a job that
does not fit into a message is not sent. -/
abbrev Regime.any : Regime := ⟨true, false⟩

/-- The places of all jobs agree. -/
abbrev Agrees (cfg : Config) (w : World) : Prop := Good cfg .any [] w.bare

section
variable {cfg : Config} {ρ : Rules} (hρ : ρ.faults = false) {w w' : World} {id : String}
  {r : JobRecord}

theorem Agrees.named (hg : Agrees cfg w) : w.NamedJobs := fun i r hr => (Good.fits hg i r hr).id_eq

/-! ## Updates of a bare world -/

variable (cfg) in
theorem World.openQueue_bare (queue : String) (w : World) :
    (w.openQueue cfg queue).bare = w.bare.openQueue cfg queue := by
  rw [World.openQueue, World.openQueue]
  cases h : w.queueURLs.lookup queue <;> simp [World.bare, World.setStore, h]

variable (cfg) in
theorem World.dropMessage_bare (r : JobRecord) (w : World) :
    (w.dropMessage cfg r).bare = w.bare.dropMessage cfg r := by
  rw [World.dropMessage, World.dropMessage]
  cases r.sqsReceiptHandle with
  | none => rfl
  | some h =>
    have ho := World.openQueue_bare cfg r.queue w
    simp only
    rw [← ho]
    rfl

theorem World.acked_bare (r : JobRecord) (result : Option String) (t : Time) (w : World) :
    (w.acked cfg id r result t).bare = w.bare.acked cfg id r result t := by
  have hd := World.dropMessage_bare cfg r (w.setClock t)
  rw [World.acked, World.acked]
  rw [show w.bare.setClock t = (w.setClock t).bare from rfl, ← hd]
  rfl

theorem World.nackDiscarded_bare (r : JobRecord) (e : Option JobError) (t : Time) (w : World) :
    (w.nackDiscarded cfg id r e t).bare = w.bare.nackDiscarded cfg id r e t := by
  have hd := World.dropMessage_bare cfg r (w.setClock t)
  simp only [World.nackDiscarded]
  rw [show w.bare.setClock t = (w.setClock t).bare from rfl, ← hd]
  split <;> rfl

/-! ## The work on workflows, crons and pauses -/

/-- A request that is about no job. -/
theorem agrees_aside {d : DynamoCall} {a : Except AwsError d.Answer}
    (hd : ∀ s : Store, (s.run d).2.jobs = s.jobs ∧ (s.run d).2.due = s.due ∧
      (s.run d).2.deadLetters = s.deadLetters)
    (hg : Agrees cfg w) (he : ρ.env (.dynamo d) w a w') : Agrees cfg w' := by
  obtain ⟨ch, s', -, hact, rfl⟩ := Rules.env_dynamo he
  rcases Store.act_cases hact with hrun | rfl
  · obtain rfl : s' = (w.store.run d).2 := congrArg Prod.snd hrun
    obtain ⟨hj, hdue, hdead⟩ := hd w.store
    have hm : Moves cfg .any w.bare .promoteRetries w.bare
        ((w.bare.setClock w.clock).setStore (w.store.run d).2.bare) :=
      hg.aside w.clock hj hdue hdead rfl
    exact hm.good
  · exact hg

theorem Agrees.setClock (hg : Agrees cfg w) (t : Time) : Agrees cfg (w.setClock t) := by
  have hm : Moves cfg .any w.bare .promoteRetries w.bare (w.bare.setClock t) :=
    hg.aside t rfl rfl rfl rfl
  exact hm.good

include hρ

theorem flows_agree : FlowKeeps cfg ρ (Agrees cfg) where
  calls c w a w' hc hg he := by
    cases c with
    | dynamo d =>
      refine agrees_aside (fun s => ?_) hg he
      cases d <;> first | (cases hc; done) | exact ⟨rfl, rfl, rfl⟩ |
        (simp only [Store.run]; split <;> exact ⟨rfl, rfl, rfl⟩)
    | sqs c => cases hc
    | proc c =>
      obtain ⟨ch, -, he⟩ := Rules.env_proc he
      cases ch <;> cases c <;> simp only [World.actProc, reduceCtorEq] at he <;>
        first
        | (cases hc; done)
        | (obtain ⟨-, he⟩ := Option.ite_none_right_eq_some.mp he
           cases he
           first | exact hg | exact hg.setClock _)
  push job hid hu _ w hg := by
    have hapart : Apart cfg .all (push cfg job) := apart_pushPlain stores_all hu
    have hpush : wp ρ.env.every (push cfg job) _ w.bare := push_moves hρ hg (.inl hid) (.inl rfl)
    exact wp_mono (Env.every_mono _) _ (wp_bare hapart.ofJobs hpush) fun a w' h =>
      (h.1 fun h => by cases h).good

/-! ## The heartbeat -/

omit hρ in
theorem apart_extendJobs {W : Writes} (timeoutSec : Int) (ids : List String) :
    Apart cfg W (extendJobs cfg timeoutSec ids) := by
  refine (extendJobs_calls cfg timeoutSec ids).mono fun c hc => ?_
  cases c with
  | dynamo d => cases d <;> first | exact ⟨trivial, rfl⟩ | cases hc
  | sqs c => cases c <;> first | exact ⟨trivial, rfl⟩ | cases hc
  | proc c => exact ⟨trivial, rfl⟩

/-- An extended message is the same for its job. -/
theorem extendJobs_good {κ : Regime} (timeoutSec : Int) (ids : List String) :
    ρ.env.Keeps (Good cfg κ []) (extendJobs cfg timeoutSec ids) := by
  have hone : ∀ id, ρ.env.Keeps (Good cfg κ []) (extendJob cfg timeoutSec id) := by
    intro id w hg
    rw [extendJob, wp_bind]
    cases hr : w.store.jobs.lookup id with
    | none =>
      rw [wp_getJob_none hρ hr]
      exact hg
    | some r =>
      rw [wp_getJob_some hρ hr]
      simp only [wp_ite]
      split
      · exact hg
      · cases r.sqsReceiptHandle with
        | none => exact hg
        | some h =>
          simp only
          rw [wp_bind, wp_getOrCreateQueueURL cfg hρ]
          simp only
          rw [wp_bind, wp_sqs hρ rfl]
          have hreceipt : ∀ m, (SqsState.showMessage (w.urlOf cfg r.queue) h timeoutSec m).receipt =
              m.receipt := fun m => by
            rw [SqsState.showMessage]
            split <;> rfl
          exact (hg.openQueue r.queue).showMessages (SqsState.same_showMessage _ _ _) hreceipt
  induction ids with
  | nil => exact keeps_pure _
  | cons id ids ih => exact keeps_bind (hone id) fun _ => keeps_bind ih fun _ => keeps_pure _

/-! ## The steps -/

omit hρ in
/-- An operation that makes only calls about jobs. -/
theorem op_apart (cfg : Config) (o : Op) (hack : ∀ id result, o ≠ .ack id result)
    (hnack : ∀ id e requeue, o ≠ .nack id e requeue) : Apart cfg .all (o.prog cfg) := by
  cases o with
  | push job => exact apart_push (fun _ _ => trivial) stores_all
  | pushBatch jobs => exact apart_pushBatch stores_all
  | fetch fuel queues count worker vis =>
    exact apart_fetch (fun _ => trivial) fun _ _ _ => trivial
  | ack id result => exact absurd rfl (hack id result)
  | nack id e requeue => exact absurd rfl (hnack id e requeue)
  | cancel id => exact apart_cancel fun _ => trivial
  | promoteScheduled => exact apart_promote (fun _ _ => trivial) fun _ _ => trivial
  | promoteRetries => exact apart_promote (fun _ _ => trivial) fun _ _ => trivial
  | retryDeadLetter id => exact apart_retryDeadLetter (fun _ => trivial) fun _ _ => trivial
  | deleteDeadLetter id => exact apart_deleteDeadLetter id

theorem ack_agrees (result : Option String) : ρ.env.Keeps (Agrees cfg) (ack cfg id result) := by
  intro w hg
  cases hr : w.store.jobs.lookup id with
  | none =>
    rw [ack, wp_bind, wp_getJob_none hρ hr]
    exact hg
  | some r =>
    refine wp_ack hρ hr (fun _ => hg) fun hs t _ => ?_
    have hacked : Agrees cfg (w.acked cfg id r result t) := by
      rw [Agrees, World.acked_bare]
      exact (Good.acked hg hr hs result t).good
    exact wp_mono (Env.every_mono _) _ ((flows_agree hρ).advanceWorkflowOf id _ _ _ hacked)
      fun _ _ h _ => h

theorem nack_agrees (e : Option JobError) (requeue : Bool) :
    ρ.env.Keeps (Agrees cfg) (nack cfg id e requeue) := by
  intro w hg
  rw [nack, wp_bind]
  cases hr : w.store.jobs.lookup id with
  | none =>
    rw [wp_getJob_none hρ hr]
    exact hg
  | some r =>
    rw [wp_getJob_some hρ hr]
    simp only [wp_ite]
    split
    · exact hg
    · rename_i hs
      have hs : r.state = .active := not_not.mp hs
      rw [wp_bind]
      refine wp_timeNow fun t _ => ?_
      simp only [wp_ite]
      split
      · have hm := wp_bare (apart_nackRequeue (W := .all) fun _ => trivial).ofJobs
          (w := w.setClock t) (nackRequeue_moves hρ hg hr hs t e)
        exact wp_mono (Env.every_mono _) _ hm fun _ _ h => h.1.good
      · split
        · refine wp_nackDiscard hρ hr ?_
          have hdiscarded : Agrees cfg (w.nackDiscarded cfg id r e t) := by
            rw [Agrees, World.nackDiscarded_bare]
            exact (Good.nackDiscarded hg hr hs e t).good
          exact wp_mono (Env.every_mono _) _
            ((flows_agree hρ).advanceWorkflowOf id _ _ _ hdiscarded) fun _ _ h _ => h
        · have hm := wp_bare (apart_nackRetry (W := .all) (fun _ => trivial) trivial).ofJobs
            (w := w.setClock t) (nackRetry_moves hρ hg hr hs t e)
          exact wp_mono (Env.every_mono _) _ hm fun _ _ h => h.1.good

theorem cancel_agrees (id : String) : ρ.env.Keeps (Agrees cfg) (cancel cfg id) := by
  intro w hg
  have hapart : Apart cfg .all (cancel cfg id) := apart_cancel fun _ => trivial
  have hm := wp_bare hapart.ofJobs
    (cancel_moves hρ w.bare (.cancel id) (fun _ _ h => .cancel h) hg (.inl rfl))
  exact wp_mono (Env.every_mono _) _ hm fun _ _ h => h.1.1.good

omit hρ in
theorem setPaused_agrees (name : String) (paused : Bool) :
    ρ.env.Keeps (Agrees cfg) (setQueuePaused name paused) := by
  have honly : (setQueuePaused name paused).Only (· = .dynamo (.setPausedItem name paused)) :=
    only_request rfl
  intro w hg
  refine honly.keeps _ (fun c w a w' hc h he => ?_) hg
  subst hc
  exact agrees_aside (fun _ => ⟨rfl, rfl, rfl⟩) h he

/-- **One operation.** -/
theorem op_agrees {lib : CronLib} {o : SystemOp} {a : o.Result} (hg : Agrees cfg w)
    (hfresh : o.Fresh w) (hr : Runs (ρ.reserving (o.inUse w)).env (o.prog cfg lib) w a w') :
    Agrees cfg w' := by
  have hρ' : (ρ.reserving (o.inUse w)).faults = false := hρ
  have hkeep : (ρ.reserving (o.inUse w)).env.Keeps (Agrees cfg) (o.prog cfg lib) → Agrees cfg w' :=
    fun hk => (wp_iff_runs _ _ _ _).mp (hk w hg) a w' hr
  cases o with
  | job o =>
    by_cases hack : ∃ id result, o = .ack id result
    · obtain ⟨id, result, rfl⟩ := hack
      exact hkeep (ack_agrees hρ' result)
    · by_cases hnack : ∃ id e requeue, o = .nack id e requeue
      · obtain ⟨id, e, requeue, rfl⟩ := hnack
        exact hkeep (nack_agrees hρ' e requeue)
      · have hapart := op_apart cfg o (fun id result h => hack ⟨id, result, h⟩)
          fun id e requeue h => hnack ⟨id, e, requeue, h⟩
        have hrun := runs_reserving (List.subset_append_left o.newIDs _) hr
        have hallow : Allows cfg ρ .any w.bare (.op o a) := ⟨.inl rfl, fun h => by cases h⟩
        have hm : Moves cfg .any w.bare o w.bare w'.bare :=
          op_moves hρ (fun h => by cases h) hg hallow hfresh (runs_bare hapart.ofJobs hrun).1
        exact hm.good
  | pauseQueue name => exact hkeep (setPaused_agrees name true)
  | resumeQueue name => exact hkeep (setPaused_agrees name false)
  | heartbeat activeJobs vis =>
    have hapart : Apart cfg .all (heartbeatJobs cfg activeJobs vis) := apart_extendJobs _ activeJobs
    have hm := wp_bare hapart.ofJobs (extendJobs_good hρ' _ activeJobs w.bare hg)
    exact (wp_runs hm hr).1
  | createWorkflow req => exact hkeep ((flows_agree hρ').createWorkflow req)
  | cancelWorkflow id => exact hkeep ((flows_agree hρ').cancelWorkflow (cancel_agrees hρ') id)
  | registerCron zone cronJob => exact hkeep ((flows_agree hρ').registerCron cronJob)
  | deleteCron name => exact hkeep ((flows_agree hρ').deleteCron name)
  | fireCronJobs zone => exact hkeep (flows_agree hρ').fireCronJobs

/-- **One step.** -/
theorem step_agrees {lib : CronLib} {l : SystemLabel} (hg : Agrees cfg w)
    (hs : SystemStep cfg lib ρ w l w') : Agrees cfg w' := by
  cases hs with
  | op o a hfresh _ hr => exact op_agrees hρ hg hfresh hr
  | env l hl hs =>
    have hallow : Allows cfg ρ .any w.bare l := ⟨.inl rfl, fun h => by cases h⟩
    have hbare : Step cfg ρ w.bare l w'.bare := by
      cases hs with
      | op o a => cases hl
      | expireVisibility m => exact .expireVisibility m
      | ensureDLQ queue url hb hr =>
        exact .ensureDLQ queue url hb (runs_bare (apart_ensureDLQ (W := .all) queue url).ofJobs hr).1
      | tick t ht => exact .tick t ht
      | expireKey fp item hi ht => exact .expireKey fp item hi ht
    exact (step_good hρ (fun h => by cases h) hg hallow hbare).1

/-- **Every run.** -/
theorem run_agrees {lib : CronLib} {t : Time} {ls : List SystemLabel}
    (h : SystemRun cfg lib ρ t ls w) : Agrees cfg w :=
  h.keeps (good_start t) fun _ _ _ hg hs => step_agrees hρ hg hs

end
end OjsSqs
