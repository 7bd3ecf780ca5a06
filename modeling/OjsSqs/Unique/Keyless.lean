import OjsSqs.Racing.Ordinary

/-! # Calls that mint no unique job

Only a Push of a job with a unique policy takes a unique key or stores a job
that has such a policy. The programs of the other operations are made of
calls that do neither, the pushes of a workflow's jobs included. -/
namespace OjsSqs
open Calls

/-- The call takes no key and stores no job with a unique policy. -/
def Call.keyless : Call → Prop
  | .dynamo (.putUniqueItem _ _ _) => False
  | .dynamo (.putJobItem r) => r.unique.unmarshal = none
  | _ => True

theorem Call.keyless_of_isAside {c : Call} (h : c.isAside) : c.keyless := by
  cases c with
  | dynamo d => cases h
  | sqs c => trivial
  | proc c => trivial

section
variable (cfg : Config)

theorem keyless_aside {α : Type} {p : M α} (h : p.Only (·.isAside)) : p.Only Call.keyless :=
  h.mono fun _ => Call.keyless_of_isAside

theorem keyless_ordinary {α : Type} {p : M α} (h : Ordinary p) : p.Only Call.keyless :=
  h.mono fun c hc => by
    cases c with
    | dynamo d => cases d <;> trivial
    | _ => trivial

theorem keyless_request {context : String} {c : DynamoCall} (h : (Call.dynamo c).keyless) :
    (request context c).Only Call.keyless := only_request h

theorem keyless_registerQueue (name : String) : (registerQueue name).Only Call.keyless :=
  only_registerQueue trivial

/-! ## Pushes of jobs without a policy -/

/-- What follows the record of a job that is scheduled. -/
theorem keyless_pushScheduled (now t : Time) {job : Job} (hu : job.unique = none) :
    (pushScheduled cfg now t job).Only Call.keyless := by
  have hput : (Call.dynamo (.putJobItem (jobToRecord { job with
      state := .scheduled, enqueuedAt := cfg.formatTime now }))).keyless := by
    rw [Call.keyless, jobToRecord, hu]
    rfl
  refine Prog.only_bind (keyless_request hput) fun a => ?_
  split
  · exact Prog.only_pure _
  · refine Prog.only_bind (keyless_request (c := .putDueItem .scheduled job.id _) trivial) fun a => ?_
    split
    · exact Prog.only_pure _
    · refine Prog.only_bind (keyless_registerQueue _) fun a => ?_
      split <;> exact Prog.only_pure _

theorem keyless_pushAvailable (now : Time) {job : Job} (hu : job.unique = none) :
    (pushAvailable cfg now job).Only Call.keyless := by
  have hput : (Call.dynamo (.putJobItem (jobToRecord { job with
      state := .available, enqueuedAt := cfg.formatTime now }))).keyless := by
    rw [Call.keyless, jobToRecord, hu]
    rfl
  refine Prog.only_bind (keyless_request hput) fun a => ?_
  split
  · exact Prog.only_pure _
  · refine Prog.only_bind (keyless_registerQueue _) fun a => ?_
    split
    · exact Prog.only_pure _
    · refine Prog.only_bind (keyless_aside (only_sendToSQS cfg _)) fun a => ?_
      split <;> exact Prog.only_pure _

theorem keyless_pushNew (now : Time) {job : Job} (hu : job.unique = none) :
    (pushNew cfg now job).Only Call.keyless := by
  rw [pushNew]
  split
  · exact keyless_pushScheduled cfg now _ hu
  · exact keyless_pushAvailable cfg now hu

theorem keyless_assignID (job : Job) : (assignID job).Only Call.keyless := by
  rw [assignID]
  split
  · exact Prog.only_perform trivial
  · exact Prog.only_pure _

theorem keyless_push {job : Job} (hu : job.unique = none) : (push cfg job).Only Call.keyless := by
  refine Prog.only_bind (keyless_aside only_timeNow) fun now => ?_
  refine Prog.only_bind (keyless_assignID job) fun id => ?_
  simp only [hu]
  exact keyless_pushNew cfg now rfl

/-! ## Workflows -/

theorem keyless_pushWorkflowJob (wf : String) {job : Job} (hu : job.unique = none) :
    (pushWorkflowJob cfg wf job).Only Call.keyless := by
  refine Prog.only_bind (keyless_push cfg hu) fun a => ?_
  split
  · exact Prog.only_pure _
  · exact Prog.only_bind (keyless_request (c := .putWorkflowJobItem wf _) trivial) fun _ =>
      Prog.only_pure _

theorem keyless_enqueueChainStep (id : String) (wf : WorkflowRecord) (stepIdx : Int) :
    (enqueueChainStep cfg id wf stepIdx).Only Call.keyless := by
  rw [enqueueChainStep]
  split
  · exact Prog.only_pure _
  · split
    · exact Prog.only_pure _
    · refine Prog.only_bind (keyless_request (c := .queryWorkflowResults id) trivial) fun a => ?_
      exact keyless_pushWorkflowJob cfg id rfl

theorem keyless_fireIfDefined (cb : Option WorkflowCallback) :
    (fireIfDefined cfg cb).Only Call.keyless := by
  cases cb with
  | none => exact Prog.only_pure _
  | some cb => exact Prog.only_bind (keyless_push cfg rfl) fun _ => Prog.only_pure _

theorem keyless_fireBatchCallbacks (wf : WorkflowRecord) (failed : Bool) :
    (fireBatchCallbacks cfg wf failed).Only Call.keyless := by
  rw [fireBatchCallbacks]
  split
  · exact Prog.only_pure _
  · refine Prog.only_bind (keyless_fireIfDefined cfg _) fun _ => ?_
    split <;> exact keyless_fireIfDefined cfg _

theorem keyless_updateWorkflow (id : String) (us : List WorkflowUpdate) :
    (updateWorkflow id us).Only Call.keyless := by
  rw [updateWorkflow]
  split
  · exact Prog.only_pure _
  · exact keyless_request (c := .updateWorkflowItem id us) trivial

theorem keyless_advanceChain (id : String) (wf : WorkflowRecord) (stepIdx : Int) (failed : Bool) :
    (advanceChain cfg id wf stepIdx failed).Only Call.keyless := by
  have hend : ∀ s : WorkflowState, (do
      let now ← nowFormatted cfg
      let _ ← updateWorkflow id (counterUpdates wf failed ++ [.state s, .completedAt now])
      return .ok () : M (Except Error Unit)).Only Call.keyless := fun s =>
    Prog.only_bind (keyless_aside (only_nowFormatted cfg)) fun now =>
      Prog.only_bind (keyless_updateWorkflow id _) fun _ => Prog.only_pure _
  rw [advanceChain]
  split
  · exact hend .failed
  · split
    · exact hend .completed
    · exact Prog.only_bind (keyless_updateWorkflow id _) fun _ =>
        keyless_enqueueChainStep cfg id wf _

theorem keyless_advanceGroup (id : String) (wf : WorkflowRecord) (failed : Bool) :
    (advanceGroup cfg id wf failed).Only Call.keyless := by
  refine Prog.only_bind (keyless_updateWorkflow id _) fun _ => ?_
  split
  · refine Prog.only_bind (keyless_aside (only_nowFormatted cfg)) fun now => ?_
    refine Prog.only_bind (keyless_updateWorkflow id _) fun _ => ?_
    split
    · exact Prog.only_bind (keyless_fireBatchCallbacks cfg wf _) fun _ => Prog.only_pure _
    · exact Prog.only_pure _
  · exact Prog.only_pure _

theorem keyless_storeResult (id : String) (stepIdx : Int) (result : Option String) :
    (storeResult id stepIdx result).Only Call.keyless := by
  cases result with
  | none => exact Prog.only_pure _
  | some res =>
    rw [storeResult]
    split
    · exact Prog.only_pure _
    · exact Prog.only_bind (keyless_request (c := .putWorkflowResultItem id stepIdx _) trivial)
        fun _ => Prog.only_pure _

theorem keyless_advanceWorkflow (id jobID : String) (result : Option String) (failed : Bool) :
    (advanceWorkflow cfg id jobID result failed).Only Call.keyless := by
  refine Prog.only_bind ?_ fun a => ?_
  · refine Prog.only_bind (Prog.only_perform trivial) fun a => ?_
    split <;> exact Prog.only_pure _
  · split
    · exact Prog.only_pure _
    · split
      · exact Prog.only_pure _
      · refine Prog.only_bind (keyless_ordinary (ordinary_getJob jobID)) fun a => ?_
        split
        · exact Prog.only_pure _
        · refine Prog.only_bind (keyless_storeResult id _ result) fun _ => ?_
          split
          · exact keyless_advanceChain cfg id _ _ failed
          · exact keyless_advanceGroup cfg id _ failed

theorem keyless_advanceWorkflowOf (id : String) (s : JobState) (result : Option String) :
    (advanceWorkflowOf cfg id s result).Only Call.keyless := by
  refine Prog.only_bind (keyless_ordinary (ordinary_getJob id)) fun a => ?_
  split
  · exact Prog.only_pure _
  · split
    · exact Prog.only_pure _
    · exact Prog.only_bind (keyless_advanceWorkflow cfg _ id result _) fun _ => Prog.only_pure _

/-! ## Ack and Nack -/

theorem keyless_ack (id : String) (result : Option String) :
    (ack cfg id result).Only Call.keyless := by
  refine Prog.only_bind (keyless_ordinary (ordinary_getJob id)) fun a => ?_
  split
  · exact Prog.only_pure _
  · split
    · exact Prog.only_pure _
    · refine Prog.only_bind (keyless_aside (only_nowFormatted cfg)) fun now => ?_
      refine Prog.only_bind (keyless_aside (only_dropMessage cfg _)) fun _ => ?_
      refine Prog.only_bind (keyless_ordinary (ordinary_updateJobState id _ _)) fun a => ?_
      split
      · exact Prog.only_pure _
      · refine Prog.only_bind (keyless_request (c := .addCompleted _) trivial) fun _ => ?_
        refine Prog.only_bind (keyless_advanceWorkflowOf cfg id _ result) fun _ => ?_
        exact Prog.only_bind (keyless_ordinary (ordinary_info id)) fun _ => Prog.only_pure _

theorem keyless_nackDiscard (now : Time) (r : JobRecord) (id : String) (e : Option JobError) :
    (nackDiscard cfg now r id e).Only Call.keyless := by
  refine Prog.only_bind (keyless_aside (only_deleteMessageOf cfg r _ _)) fun a => ?_
  split
  · exact Prog.only_pure _
  · refine Prog.only_bind (keyless_ordinary (ordinary_updateJobState id _ _)) fun a => ?_
    split
    · exact Prog.only_pure _
    · refine Prog.only_bind (keyless_ordinary (ordinary_markDeadLetter _ id)) fun a => ?_
      split
      · exact Prog.only_pure _
      · refine Prog.only_bind (keyless_advanceWorkflowOf cfg id _ _) fun _ => ?_
        refine Prog.only_bind (keyless_ordinary (ordinary_info id)) fun a => ?_
        split <;> exact Prog.only_pure _

theorem keyless_nack (id : String) (e : Option JobError) (requeue : Bool) :
    (nack cfg id e requeue).Only Call.keyless := by
  refine Prog.only_bind (keyless_ordinary (ordinary_getJob id)) fun a => ?_
  split
  · exact Prog.only_pure _
  · split
    · exact Prog.only_pure _
    · refine Prog.only_bind (keyless_aside only_timeNow) fun now => ?_
      split
      · exact keyless_ordinary (ordinary_nackRequeue cfg now _ id)
      · split
        · exact keyless_nackDiscard cfg now _ id e
        · exact keyless_ordinary (ordinary_nackRetry cfg now _ id e)

end

end OjsSqs
