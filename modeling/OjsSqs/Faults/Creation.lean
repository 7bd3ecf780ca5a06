import OjsSqs.Atomic.Steps
import OjsSqs.Faults.Methods
import OjsSqs.Lifecycle.Messages
import OjsSqs.System.Operations

/-! # CreateWorkflow with failing calls

The record of the workflow is stored as running before its first job is pushed,
and nothing takes it back. An error of a later call leaves it there. -/
namespace OjsSqs
open Calls

section
variable (cfg : Config)

/-! ## The pushes write no workflow -/

/-- The call writes no workflow. -/
def Call.sparesWorkflows (c : Call) : Prop := c.writesWorkflow = none

theorem pushPlain_writesNone {job : Job} (hu : job.unique = none) :
    (push cfg job).Only Call.sparesWorkflows := by
  refine Prog.only_bind (Prog.only_perform rfl) fun now => ?_
  refine Prog.only_bind ?_ fun id => ?_
  · rw [assignID]
    split
    · exact Prog.only_perform rfl
    · exact Prog.only_pure _
  · simp only [hu]
    exact pushNew_calls cfg now _ (fun _ _ _ => rfl) (fun _ => rfl) rfl
      (only_queueURL cfg _ rfl (fun _ => rfl) (fun _ => rfl) fun _ => rfl) fun _ _ _ => rfl

theorem pushWorkflowJobs_writesNone (wfID : String) (stepIdx : Int) (steps : List WorkflowJobRequest) :
    (pushWorkflowJobs cfg wfID stepIdx steps).Only Call.sparesWorkflows := by
  induction steps generalizing stepIdx with
  | nil => exact Prog.only_pure _
  | cons step steps ih =>
    rw [pushWorkflowJobs]
    refine Prog.only_bind ?_ fun a => ?_
    · refine Prog.only_bind (pushPlain_writesNone cfg rfl) fun a => ?_
      split
      · exact Prog.only_pure _
      · exact Prog.only_bind (only_request rfl) fun _ => Prog.only_pure _
    · split
      · exact Prog.only_pure _
      · exact ih _

end

/-! ## What is left -/

/-- Nothing is left of what was created: no workflow that was not there before
is running, and no job that was not there before waits or has a message. -/
structure NothingLeft (w w' : World) : Prop where
  workflows : ∀ id wf, w.store.workflows.lookup id = none →
    w'.store.workflows.lookup id = some wf → wf.state ≠ .running
  jobs : ∀ id r, w.store.jobs.lookup id = none → w'.store.jobs.lookup id = some r →
    isTerminalState r.state = true ∧ w'.sqs.messagesOf id = []

/-- The record of a workflow has been stored. -/
def noteWorkflow : Note World Call Answer Bool
  | .dynamo (.putWorkflowItem _), .ok _, _, _, _ => true
  | _, _, _, _, stored => stored

section
variable {cfg : Config} {ρ : Rules} {w : World}

theorem noteWorkflow_true (c : Call) (r : Answer c) (w w' : World) :
    noteWorkflow c r w w' true = true := by
  cases c with
  | dynamo d => cases d <;> first | rfl | (cases r <;> rfl)
  | sqs c => rfl
  | proc c => rfl

/-- **An error takes nothing back**: when CreateWorkflow reports one, nothing is
left of the workflow exactly when its record was never stored, that is, when no
Push was made. -/
theorem createWorkflow_error (cfg : Config) (ρ : Rules) (w : World) (req : WorkflowRequest) :
    wp ((ρ.reserving w.store.workflows.keys).env.withGhost noteWorkflow).every (createWorkflow cfg req)
      (fun a x => ∀ e, a = .error e → (NothingLeft w x.1 ↔ x.2 = false)) (w, false) := by
  have hkeeps : ∀ {id : String} {wf : WorkflowRecord} {α : Type} {p : M α} {x : World × Bool},
      p.Only Call.sparesWorkflows → x.1.store.workflows.lookup id = some wf ∧ x.2 = true →
      wp ((ρ.reserving w.store.workflows.keys).env.withGhost noteWorkflow).every p
        (fun _ x => x.1.store.workflows.lookup id = some wf ∧ x.2 = true) x := by
    intro id wf α p x hp hx
    refine hp.keeps (fun x : World × Bool => x.1.store.workflows.lookup id = some wf ∧ x.2 = true)
      (fun c x r x' hc hx he => ⟨?_, ?_⟩) hx
    · rw [← hx.1]
      exact Rules.env_workflow (hc.trans_ne nofun) he.1
    · rw [he.2, hx.2, noteWorkflow_true]
  rw [createWorkflow, wp_bind]
  refine wp_ghost (wp_timeNow fun t _ => ?_)
  rw [wp_bind]
  refine wp_ghost (wp_newUUIDv7 fun id _ _ hid => ?_)
  have hnew : w.store.workflows.lookup id = none :=
    AList.lookup_eq_none.mpr fun hin => hid (AList.mem_keys.mp hin)
  have hleft : ∀ x : World × Bool,
      x.1.store.workflows.lookup id = some (workflowRecord cfg id t req) ∧ x.2 = true →
      (NothingLeft w x.1 ↔ x.2 = false) := by
    intro x ⟨hwf, hx⟩
    exact iff_of_false (fun h => h.workflows id _ hnew hwf rfl) (by rw [hx]; decide)
  simp only
  rw [wp_bind, putWorkflow, request, wp_bind]
  refine wp_ghost (wp_dynamo_faulty rfl (fun msg => ?_) ?_)
  · -- nothing was stored
    intro e _
    refine iff_of_true ⟨fun i wf hi hwf => ?_, fun i r hi hr => ?_⟩ rfl
    · rw [show w.store.workflows.lookup i = some wf from hwf] at hi
      cases hi
    · rw [show w.store.jobs.lookup i = some r from hr] at hi
      cases hi
  · have hstored : ((w.setClock t).setStore ((w.setClock t).store.run
        (.putWorkflowItem (workflowRecord cfg id t req))).2).store.workflows.lookup id =
          some (workflowRecord cfg id t req) := AList.lookup_insert _
    simp only [Store.run, wp_pure]
    rw [wp_ite]
    split
    · exact fun e _ => hleft _ ⟨hstored, rfl⟩
    · rw [wp_bind]
      refine wp_mono (Env.every_mono _) _
        (hkeeps (pushWorkflowJobs_writesNone cfg id 0 _) ⟨hstored, rfl⟩) fun a x hx => ?_
      cases a with
      | error e => exact fun _ _ => hleft x hx
      | ok u => exact fun _ h => by cases h

end

/-! ## A job that is too large -/

/-- Every job is too large for a message. -/
def oversized : Config := { demo with marshalSize := fun _ => some 300000 }

def oneJobGroup : WorkflowRequest := { type := "group", jobs := [{ type := "email" }] }

/-- No call fails: the one job of the group is rejected for its size. -/
theorem createWorkflow_leaves_workflow : ¬ ∀ (cfg : Config) (ρ : Rules) (w : World) (req : WorkflowRequest),
    wp (ρ.reserving w.store.workflows.keys).env.every (createWorkflow cfg req)
      (fun a w' => ∀ e, a = .error e → NothingLeft w w') w := by
  intro hall
  have hrun : (script (({} : Rules).reserving []).act
      [.tick 0, .uuid "w1", .ok, .tick 0, .uuid "j1", .ok, .ok, .ok, .ok, .ok, .ok]
      (createWorkflow oversized oneJobGroup) {}).map (fun (a, w') =>
        (a.toOption.isNone, (w'.store.workflows.lookup "w1").map (·.state))) =
      some (true, some .running) := rfl
  obtain ⟨⟨a, w'⟩, hs, hend⟩ := Option.map_eq_some_iff.mp hrun
  simp only [Prod.mk.injEq, Option.map_eq_some_iff] at hend
  obtain ⟨herr, wf, hwf, hstate⟩ := hend
  cases a with
  | ok wf => cases herr
  | error e =>
    have hnothing := (wp_iff_runs _ _ _ _).mp (hall oversized {} {} oneJobGroup) _ w' (script_runs _ hs)
    exact (hnothing e rfl).workflows "w1" wf rfl hwf hstate

end OjsSqs
