import OjsSqs.Workflows.Started

/-! # What a step does to a workflow

An Ack completes a job and a Nack may discard it, and then the workflow of the
job is told. Every other step tells no workflow, and ends no job but for those
it cancels. -/
namespace OjsSqs
open Calls

/-! ## The end of a job -/

/-- A job that ends: whether it has failed, and the result it was acked with. -/
structure Finish where
  jobID : String
  failed : Bool
  result : Option String
deriving DecidableEq, Repr

/-- The job an Ack completes, or a Nack discards. -/
def SystemLabel.finish : SystemLabel → Option Finish
  | .op (.job (.ack id result)) (.ok _) => some ⟨id, false, result⟩
  | .op (.job (.nack id _ _)) (.ok res) =>
    if res.state = .discarded then some ⟨id, true, none⟩ else none
  | _ => none

/-- The state an ended job is in. -/
def Finish.state (e : Finish) : JobState := if e.failed then .discarded else .completed

/-- The active job was moved to its last state, and nothing else of the jobs and
the workflows has changed. -/
structure Closes (e : Finish) (r : JobRecord) (w w' : World) : Prop where
  stored : w.store.jobs.lookup e.jobID = some r
  active : r.state = .active
  closed : ∃ r', w'.store.jobs.lookup e.jobID = some r' ∧ r'.fixed = r.fixed ∧ r'.state = e.state
  others : ∀ i, i ≠ e.jobID → w'.store.jobs.lookup i = w.store.jobs.lookup i
  flows : SameFlows w w'

/-- The job was closed, and its workflow told. -/
def Ends (cfg : Config) (e : Finish) (w w' : World) : Prop :=
  ∃ r w₁, Closes e r w w₁ ∧ Tells cfg r e.result e.failed w₁ w'

/-- The active job waits again. -/
structure PutBack (id : String) (w w' : World) : Prop where
  stored : ∃ r r', w.store.jobs.lookup id = some r ∧ r.state = .active ∧
    w'.store.jobs.lookup id = some r' ∧ r'.fixed = r.fixed ∧ isTerminalState r'.state = false
  others : ∀ i, i ≠ id → w'.store.jobs.lookup i = w.store.jobs.lookup i
  flows : SameFlows w w'

/-- What a Nack has done when it gives this answer. -/
def AfterNack (cfg : Config) (id : String) (w w' : World) : Except Error NackResponse → Prop
  | .error _ => w' = w
  | .ok res => if res.state = .discarded then Ends cfg ⟨id, true, none⟩ w w' else PutBack id w w'

section
variable {cfg : Config} {w w₁ w' : World} {r r' : JobRecord}

theorem Tells.congr {result : Option String} {failed : Bool} (h : Tells cfg r' result failed w w')
    (hf : r'.fixed = r.fixed) : Tells cfg r result failed w w' := by
  have hid : r'.workflowID = r.workflowID := congrArg (fun r => r.workflowID) hf
  have hstep : r'.workflowStep = r.workflowStep := congrArg (fun r => r.workflowStep) hf
  rw [Tells, World.runningFlow, ← hid, ← hstep]
  exact h

theorem JobRecord.moved_fixed (r : JobRecord) (s : JobState) (us : List JobUpdate) :
    (r.moved s us).fixed = r.fixed := JobRecord.update_fixed r s us _ _

theorem Closes.of_insert {e : Finish} (hr : w.store.jobs.lookup e.jobID = some r)
    (hs : r.state = .active) (hfixed : r'.fixed = r.fixed) (hstate : r'.state = e.state)
    (hjobs : w'.store.jobs = w.store.jobs.insert e.jobID r') (hflows : SameFlows w w') :
    Closes e r w w' where
  stored := hr
  active := hs
  closed := ⟨r', by rw [hjobs]; exact AList.lookup_insert _, hfixed, hstate⟩
  others i hi := by rw [hjobs]; exact AList.lookup_insert_ne hi
  flows := hflows

theorem acked_closes {id : String} (hr : w.store.jobs.lookup id = some r) (hs : r.state = .active)
    (result : Option String) (t : Time) :
    Closes ⟨id, false, result⟩ r w (w.acked cfg id r result t) := by
  have hstore : (w.acked cfg id r result t).store = ((w.setJob id
      (r.moved .completed (ackUpdates (cfg.formatTime t) result))).addCompleted r.queue).store := by
    simp only [World.acked, World.addCompleted, World.setQueues, World.setJob,
      World.dropMessage_store]
    rfl
  exact .of_insert hr hs (r.moved_fixed .completed _) rfl (by rw [hstore]; rfl)
    ⟨by rw [hstore]; rfl, by rw [hstore]; rfl⟩

theorem nackDiscarded_closes {id : String} (hr : w.store.jobs.lookup id = some r)
    (hs : r.state = .active) (err : Option JobError) (t : Time) :
    Closes ⟨id, true, none⟩ r w (w.nackDiscarded cfg id r err t) := by
  have hstore : ((w.setClock t).dropMessage cfg r).store = w.store := World.dropMessage_store ..
  simp only [World.nackDiscarded]
  split <;> exact .of_insert hr hs (r.moved_fixed .discarded _) rfl (by rw [← hstore]; rfl)
    ⟨by rw [← hstore]; rfl, by rw [← hstore]; rfl⟩

theorem PutBack.afterNack {id : String} {res : NackResponse} (h : PutBack id w w')
    (hres : res.state ≠ .discarded) : AfterNack cfg id w w' (.ok res) := by
  rw [AfterNack, if_neg hres]
  exact h

theorem PutBack.of_insert {id : String} (hr : w.store.jobs.lookup id = some r)
    (hs : r.state = .active) (hfixed : r'.fixed = r.fixed) (hstate : isTerminalState r'.state = false)
    (hjobs : w'.store.jobs = w.store.jobs.insert id r') (hflows : SameFlows w w') :
    PutBack id w w' where
  stored := ⟨r, r', hr, hs, by rw [hjobs]; exact AList.lookup_insert _, hfixed, hstate⟩
  others i hi := by rw [hjobs]; exact AList.lookup_insert_ne hi
  flows := hflows

end

section
variable {cfg : Config} {ρ : Rules} (hρ : ρ.faults = false) {w : World}
include hρ

/-- The workflow is told of a job that was closed. -/
theorem closed_ends {e : Finish} {r : JobRecord} {w₁ : World} (h : Closes e r w w₁) :
    wp ρ.env.every (advanceWorkflowOf cfg e.jobID e.state e.result)
      (fun _ w' => Ends cfg e w w') w₁ := by
  obtain ⟨r', hr', hfixed, -⟩ := h.closed
  refine wp_mono (Env.every_mono _) _ (advanceWorkflowOf_tells hρ hr') fun _ w' ht => ?_
  refine ⟨r, w₁, h, ?_⟩
  have hfailed : decide (e.state = .discarded ∨ e.state = .cancelled) = e.failed := by
    rw [Finish.state]
    cases e.failed <;> rfl
  rw [hfailed] at ht
  exact ht.congr hfixed

/-- **An Ack** is refused, or ends the job. -/
theorem ack_ends (id : String) (result : Option String) :
    wp ρ.env.every (ack cfg id result) (fun a w' => match a with
      | .error _ => w' = w
      | .ok _ => Ends cfg ⟨id, false, result⟩ w w') w := by
  cases hr : w.store.jobs.lookup id with
  | none =>
    rw [ack, wp_bind, wp_getJob_none hρ hr]
    rfl
  | some r =>
    refine wp_ack hρ hr (fun _ => rfl) fun hs t _ => ?_
    exact wp_mono (Env.every_mono _) _ (closed_ends hρ (acked_closes hr hs result t))
      fun _ _ h _ => h

theorem nackRequeue_puts {id : String} {r : JobRecord} (hr : w.store.jobs.lookup id = some r)
    (hs : r.state = .active) (t : Time) :
    wp ρ.env.every (nackRequeue cfg t r id)
      (fun a w' => AfterNack cfg id w w' a) (w.setClock t) := by
  have hstore : ((w.setClock t).releaseMessage cfg r).store = w.store := World.releaseMessage_store ..
  rw [nackRequeue, wp_bind, wp_releaseMessage cfg hρ]
  generalize (w.setClock t).releaseMessage cfg r = w₁ at hstore
  simp only
  rw [wp_bind, wp_updateJobState_some hρ (by rw [hstore]; exact hr)]
  simp only
  have hr₂ : (w₁.setJob id (r.moved .available (requeueUpdates (cfg.formatTime t)))).store.jobs.lookup
      id = some (r.moved .available (requeueUpdates (cfg.formatTime t))) := World.setJob_lookup id _
  rw [wp_bind, wp_info_some hρ hr₂]
  simp only [wp_pure]
  refine PutBack.afterNack ?_ ?_
  · exact .of_insert hr hs (r.moved_fixed .available _) rfl (by rw [← hstore]; rfl)
      ⟨by rw [← hstore]; rfl, by rw [← hstore]; rfl⟩
  · intro h
    cases h

theorem nackRetry_puts {id : String} {r : JobRecord} (hr : w.store.jobs.lookup id = some r)
    (hs : r.state = .active) (err : Option JobError) (t : Time) :
    wp ρ.env.every (nackRetry cfg t r id err)
      (fun a w' => AfterNack cfg id w w' a) (w.setClock t) := by
  have hstore : ((w.setClock t).dropMessage cfg r).store = w.store := World.dropMessage_store ..
  rw [nackRetry, wp_bind, wp_deleteMessageOf cfg hρ]
  generalize (w.setClock t).dropMessage cfg r = w₁ at hstore
  simp only
  rw [wp_bind, wp_updateJobState_some hρ (by rw [hstore]; exact hr)]
  simp only
  rw [wp_bind, addRetryJob, wp_addDueJob hρ]
  simp only
  generalize hr' : r.moved .retryable _ = r'
  generalize Time.unixMilli _ = ms
  have hr₂ : ((w₁.setJob id r').addDue .retry id ms).store.jobs.lookup id = some r' :=
    World.setJob_lookup id r'
  rw [wp_bind, wp_info_some hρ hr₂]
  subst hr'
  simp only [wp_pure]
  refine PutBack.afterNack ?_ ?_
  · exact .of_insert hr hs (r.moved_fixed .retryable _) rfl (by rw [← hstore]; rfl)
      ⟨by rw [← hstore]; rfl, by rw [← hstore]; rfl⟩
  · intro h
    cases h

/-- **A Nack** is refused, ends the job, or puts it back. -/
theorem nack_ends (id : String) (err : Option JobError) (requeue : Bool) :
    wp ρ.env.every (nack cfg id err requeue) (fun a w' => AfterNack cfg id w w' a) w := by
  rw [nack, wp_bind]
  cases hr : w.store.jobs.lookup id with
  | none =>
    rw [wp_getJob_none hρ hr]
    rfl
  | some r =>
    rw [wp_getJob_some hρ hr]
    simp only [wp_ite]
    split
    · rfl
    · rename_i hs
      have hs : r.state = .active := not_not.mp hs
      rw [wp_bind]
      refine wp_timeNow fun t _ => ?_
      simp only [wp_ite]
      split
      · exact nackRequeue_puts hρ hr hs t
      · split
        · refine wp_nackDiscard hρ hr ?_
          exact wp_mono (Env.every_mono _) _
            (closed_ends hρ (nackDiscarded_closes hr hs err t)) fun _ _ h _ => h
        · exact nackRetry_puts hρ hr hs err t

end

/-! ## The other steps -/

/-- A step that tells no workflow of a job. A job that does not expire can only
have ended in it as cancelled. -/
structure Untold (wfID : String) (w w' : World) : Prop where
  aside : FlowAside wfID w w'
  turns : ∀ id r, w.store.jobs.lookup id = some r → ∃ r', w'.store.jobs.lookup id = some r' ∧
    r'.fixed = r.fixed ∧ (r.expiresAt = "" → isTerminalState r.state = false →
      isTerminalState r'.state = false ∨ r'.state = .cancelled)

section
variable {cfg : Config} {lib : CronLib} {ρ : Rules} {w w' : World} {l : SystemLabel} {wfID : String}

theorem Untold.refl (wfID : String) (w : World) : Untold wfID w w :=
  ⟨.refl wfID w, fun _ r hr => ⟨r, hr, rfl, fun _ hs => .inl hs⟩⟩

theorem PutBack.untold {id : String} (h : PutBack id w w') : Untold wfID w w' := by
  obtain ⟨r, r', hr, hs, hr', hfixed, hstate⟩ := h.stored
  constructor
  · refine ⟨by rw [h.flows.workflows], fun i => by rw [h.flows.results], fun i hn => ?_⟩
    refine flowJob_eq_none.mpr fun r₁ hr₁ => ?_
    by_cases he : i = id
    · subst he
      rw [hr'] at hr₁
      cases hr₁
      rw [JobRecord.fixed_workflowID hfixed]
      exact flowJob_eq_none.mp hn r hr
    · exact flowJob_eq_none.mp hn r₁ ((h.others i he).symm.trans hr₁)
  · intro i rᵢ hi
    by_cases he : i = id
    · subst he
      rw [hr] at hi
      cases hi
      exact ⟨r', hr', hfixed, fun _ _ => .inl hstate⟩
    · exact ⟨rᵢ, (h.others i he).trans hi, rfl, fun _ hs => .inl hs⟩

/-- An edge of an operation other than Ack and Nack ends no job that does not
expire, but for those it cancels. -/
theorem Edge.turns {o : Op} {now : Time} {id : String} {r : JobRecord} {s : JobState}
    (h : Edge cfg w now id r o s) (hx : r.expiresAt = "")
    (hack : ∀ result, o ≠ .ack id result) (hnack : ∀ e requeue, o ≠ .nack id e requeue) :
    isTerminalState s = false ∨ s = .cancelled := by
  cases h with
  | expire h he =>
    rw [expired, if_pos (show (recordToJob r).expiresAt = "" from hx)] at he
    cases he
  | complete h => exact absurd rfl (hack _)
  | fail h => exact absurd rfl (hnack _ _)
  | discard h => exact absurd rfl (hnack _ _)
  | requeue h => exact absurd rfl (hnack _ _)
  | cancel h => exact .inr rfl
  | replace h => exact .inr rfl
  | _ => exact .inl rfl

theorem untold_of_shifts (haside : FlowAside wfID w w') (hsame : SameJobs w w')
    (hshift : Shifts cfg l w w') (hack : ∀ id result a, l ≠ .op (.job (.ack id result)) a)
    (hnack : ∀ id e requeue a, l ≠ .op (.job (.nack id e requeue)) a) : Untold wfID w w' := by
  refine ⟨haside, fun id r hr => ?_⟩
  obtain ⟨r', hr', hfixed⟩ := hsame.stored id r hr
  obtain ⟨r₂, hr₂, hs⟩ := hshift id r hr
  rw [hr'] at hr₂
  obtain rfl := Option.some.inj hr₂
  refine ⟨r', hr', hfixed, fun hx hterm => ?_⟩
  rcases hs with hs | hs
  · rw [hs]
    exact .inl hterm
  · cases l with
    | op o a =>
      cases o with
      | job o =>
        rcases hs with hs | ⟨-, hc, -⟩
        · refine hs.turns hx (fun result he => ?_) fun e requeue he => ?_
          · subst he
            exact hack _ _ a rfl
          · subst he
            exact hnack _ _ _ a rfl
        · rw [hc] at hterm
          cases hterm
      | cancelWorkflow i => exact .inr hs.2
      | _ => cases hs
    | env l => cases hs

variable (hρ : ρ.faults = false)
include hρ

/-- **A step that ends a job.** -/
theorem step_finish {e : Finish} (hs : SystemStep cfg lib ρ w l w') (he : l.finish = some e) :
    Ends cfg e w w' := by
  cases hs with
  | env l hl hs => cases he
  | op o a hfresh hdone hr =>
    have hρ' : (ρ.reserving (o.inUse w)).faults = false := hρ
    cases o with
    | job o =>
      cases o with
      | ack id result =>
        have h := wp_runs (ack_ends hρ' id result) hr
        cases a with
        | error err => cases he
        | ok res =>
          cases he
          exact h
      | nack id err requeue =>
        have h := wp_runs (nack_ends hρ' id err requeue) hr
        cases a with
        | error err => cases he
        | ok res =>
          rw [AfterNack] at h
          simp only [SystemLabel.finish] at he
          split at he
          · rename_i hd
            cases he
            rw [if_pos hd] at h
            exact h
          · cases he
      | _ => cases he
    | _ => cases he

/-- **A step that ends none.** -/
theorem step_untold (hg : Agrees cfg w) (hid : wfID ≠ "")
    (hwf : wfID ∈ w'.store.workflows → wfID ∈ w.store.workflows)
    (hs : SystemStep cfg lib ρ w l w') (hl : l.leavesFlow wfID = true) (he : l.finish = none) :
    Untold wfID w w' := by
  have hsame := step_sameJobs hρ hg.named hs
  have hshift := step_shifts hρ hg hs
  cases hs with
  | env l hop hs =>
    refine untold_of_shifts ?_ hsame hshift (fun _ _ _ h => by cases h) fun _ _ _ _ h => by cases h
    cases hs with
    | op o a => cases hop
    | ensureDLQ queue url _ hr =>
      have hstore := wp_runs (wp_aside ((only_ensureDLQ cfg queue url).mono fun _ hc => hc.2)) hr
      exact FlowAside.of_tables (congrArg Store.jobs hstore)
        ⟨congrArg Store.workflows hstore, congrArg Store.workflowResults hstore⟩
    | _ => exact .of_tables rfl ⟨rfl, rfl⟩
  | op o a hfresh hdone hr =>
    have hρ' : (ρ.reserving (o.inUse w)).faults = false := hρ
    obtain ⟨hcancel, hnew⟩ := Bool.and_eq_true_iff.mp hl
    have hnew : ∀ job ∈ o.newJobs, job.workflowID ≠ wfID := by simpa using hnew
    have hspare : (o.prog cfg lib).Only (Call.sparesFlow wfID) → FlowAside wfID w w' :=
      fun hp => (wp_iff_runs _ _ _ _).mp (flowAside_wp hid hp) a w' hr
    cases o with
    | job o =>
      cases o with
      | ack id result =>
        have h := wp_runs (ack_ends hρ' id result) hr
        cases a with
        | error err =>
          obtain rfl : w' = w := h
          exact .refl wfID w'
        | ok res => cases he
      | nack id err requeue =>
        have h := wp_runs (nack_ends hρ' id err requeue) hr
        cases a with
        | error err =>
          obtain rfl : w' = w := h
          exact .refl wfID w'
        | ok res =>
          rw [AfterNack] at h
          simp only [SystemLabel.finish] at he
          split at he
          · cases he
          · rename_i hd
            rw [if_neg hd] at h
            exact h.untold
      | push job =>
        exact untold_of_shifts (hspare (push_sparesFlow (hnew job (List.mem_singleton_self job))))
          hsame hshift (fun _ _ _ h => by cases h) fun _ _ _ _ h => by cases h
      | pushBatch jobs =>
        exact untold_of_shifts (hspare (pushBatch_sparesFlow hnew)) hsame hshift
          (fun _ _ _ h => by cases h) fun _ _ _ _ h => by cases h
      | fetch fuel queues count worker vis =>
        exact untold_of_shifts (hspare (apart_fetch (fun _ => trivial) fun _ _ _ => trivial).sparesFlow)
          hsame hshift (fun _ _ _ h => by cases h) fun _ _ _ _ h => by cases h
      | cancel id =>
        exact untold_of_shifts (hspare (apart_cancel fun _ => trivial).sparesFlow)
          hsame hshift (fun _ _ _ h => by cases h) fun _ _ _ _ h => by cases h
      | promoteScheduled =>
        exact untold_of_shifts
          (hspare (apart_promote (fun _ _ => trivial) fun _ _ => trivial).sparesFlow)
          hsame hshift (fun _ _ _ h => by cases h) fun _ _ _ _ h => by cases h
      | promoteRetries =>
        exact untold_of_shifts
          (hspare (apart_promote (fun _ _ => trivial) fun _ _ => trivial).sparesFlow)
          hsame hshift (fun _ _ _ h => by cases h) fun _ _ _ _ h => by cases h
      | retryDeadLetter id =>
        exact untold_of_shifts
          (hspare (apart_retryDeadLetter (fun _ => trivial) fun _ _ => trivial).sparesFlow)
          hsame hshift (fun _ _ _ h => by cases h) fun _ _ _ _ h => by cases h
      | deleteDeadLetter id =>
        have hapart : Apart cfg (.others wfID) (deleteDeadLetter id) := apart_deleteDeadLetter id
        exact untold_of_shifts (hspare hapart.sparesFlow)
          hsame hshift (fun _ _ _ h => by cases h) fun _ _ _ _ h => by cases h
    | pauseQueue name =>
      exact untold_of_shifts (hspare (only_request (c := .setPausedItem name true) trivial))
        hsame hshift (fun _ _ _ h => by cases h) fun _ _ _ _ h => by cases h
    | resumeQueue name =>
      exact untold_of_shifts (hspare (only_request (c := .setPausedItem name false) trivial))
        hsame hshift (fun _ _ _ h => by cases h) fun _ _ _ _ h => by cases h
    | heartbeat activeJobs vis =>
      exact untold_of_shifts (hspare (apart_extendJobs _ activeJobs).sparesFlow)
        hsame hshift (fun _ _ _ h => by cases h) fun _ _ _ _ h => by cases h
    | createWorkflow req =>
      have h := (wp_iff_runs _ _ _ _).mp (createWorkflow_creates hρ' (reserved_workflows _ w) req) a w' hr
      obtain ⟨other, -, hfresh, hstored, hothers⟩ := h
      have hne : wfID ≠ other := by
        intro he
        subst he
        exact hfresh (hwf hstored)
      exact untold_of_shifts (hothers wfID hne hid) hsame hshift
        (fun _ _ _ h => by cases h) fun _ _ _ _ h => by cases h
    | cancelWorkflow id =>
      have hother : id ≠ wfID := by simpa [SystemOp.cancelsFlow] using hcancel
      exact untold_of_shifts (hspare (cancelWorkflow_sparesFlow hother)) hsame hshift
        (fun _ _ _ h => by cases h) fun _ _ _ _ h => by cases h
    | registerCron zone cronJob =>
      exact untold_of_shifts (hspare (registerCron_sparesFlow cronJob)) hsame hshift
        (fun _ _ _ h => by cases h) fun _ _ _ _ h => by cases h
    | deleteCron name =>
      exact untold_of_shifts (hspare (deleteCron_sparesFlow name)) hsame hshift
        (fun _ _ _ h => by cases h) fun _ _ _ _ h => by cases h
    | fireCronJobs zone =>
      exact untold_of_shifts (hspare (fireCronJobs_sparesFlow hid)) hsame hshift
        (fun _ _ _ h => by cases h) fun _ _ _ _ h => by cases h

end
end OjsSqs
