import OjsSqs.Faults.Creation
import OjsSqs.Grpc.Policies

/-! # Workflows created over gRPC

The converter fills the steps of a request and no type. The backend takes the
steps of a chain only, and the jobs of everything else. -/
namespace OjsSqs
open Calls

variable {P : ProtoLib} {cfg : Config} {ρ : Rules} {w : World}

theorem protoToWorkflowRequest_type (req : Proto.CreateWorkflowRequest P) :
    (protoToWorkflowRequest req).type ≠ "chain" := by
  change "" ≠ "chain"
  decide

theorem protoToWorkflowRequest_jobList (req : Proto.CreateWorkflowRequest P) :
    (protoToWorkflowRequest req).jobList = [] :=
  if_neg (protoToWorkflowRequest_type req)

/-- The stored workflow counts the steps of the request. -/
def CountsSteps (req : Proto.CreateWorkflowRequest P) (wf : Workflow) (w' : World) : Prop :=
  ∃ record, w'.store.workflows.lookup wf.id = some record ∧ record.total = req.steps.length

/-- **Creation over gRPC.** Whatever the steps, the workflow that is stored counts
none of them, and no job of theirs is stored. -/
theorem createWorkflow_drops_steps (cfg : Config) (ρ : Rules) (w : World)
    {req : Proto.CreateWorkflowRequest P} (hsteps : req.steps ≠ []) :
    wp ρ.env.every (createWorkflow cfg (protoToWorkflowRequest req))
      (fun a w' => ∀ wf, a = .ok wf → ¬ CountsSteps req wf w' ∧
        w'.store.jobs = w.store.jobs ∧ w'.store.workflowJobs = w.store.workflowJobs) w := by
  rw [createWorkflow, wp_bind]
  refine wp_timeNow fun t _ => ?_
  rw [wp_bind]
  refine wp_newUUIDv7 fun id _ _ _ => ?_
  rw [wp_bind, putWorkflow]
  refine wp_request_any rfl (fun e wf h => by cases h) (fun a _ => ?_) fun e he => by cases he
  simp only
  rw [wp_ite]
  have htype := protoToWorkflowRequest_type req
  rw [if_neg fun h => htype h.1, if_neg htype, protoToWorkflowRequest_jobList]
  rintro wf ⟨⟩
  refine ⟨?_, rfl, rfl⟩
  rintro ⟨record, hrecord, htotal⟩
  have hstored : ((w.setClock t).setStore ((w.setClock t).store.run (.putWorkflowItem
      (workflowRecord cfg id t (protoToWorkflowRequest req)))).2).store.workflows.lookup id =
        some (workflowRecord cfg id t (protoToWorkflowRequest req)) := AList.lookup_insert _
  obtain rfl : record = workflowRecord cfg id t (protoToWorkflowRequest req) :=
    Option.some.inj (hrecord.symm.trans hstored)
  rw [workflowRecord, protoToWorkflowRequest_jobList] at htotal
  exact hsteps (List.length_eq_zero_iff.mp (Int.ofNat.inj htotal.symm))

def twoSteps : Proto.CreateWorkflowRequest demoProto :=
  { name := "signup", steps := [{ type := "email" }, { type := "report" }] }

theorem createWorkflow_drops_two : ∃ wf w', Runs ({} : Rules).env
    (createWorkflow demo (protoToWorkflowRequest twoSteps)) {} (.ok wf) w' ∧
      ¬ CountsSteps twoSteps wf w' ∧ w'.store.jobs = ∅ := by
  have hrun : (script ({} : Rules).act [.tick 0, .uuid "w1", .ok]
      (createWorkflow demo (protoToWorkflowRequest twoSteps)) {}).map (fun (a, _) =>
        a.toOption.isSome) = some true := rfl
  obtain ⟨⟨a, w'⟩, hs, hend⟩ := Option.map_eq_some_iff.mp hrun
  cases a with
  | error e => cases hend
  | ok wf =>
    have hr := script_runs _ hs
    have hsteps : twoSteps.steps ≠ [] := by decide
    have h := (wp_iff_runs _ _ _ _).mp (createWorkflow_drops_steps demo {} {} hsteps) _ w' hr
    exact ⟨wf, w', hr, (h wf rfl).1, (h wf rfl).2.1⟩

/-- A workflow of two steps is stored with a total of zero. -/
theorem createWorkflow_total_zero :
    (script ({} : Rules).act [.tick 0, .uuid "w1", .ok]
      (createWorkflow demo (protoToWorkflowRequest twoSteps)) {}).map (fun (a, w') =>
        (a.toOption.map (·.id), (w'.store.workflows.lookup "w1").map (·.total))) =
      some (some "w1", some 0) ∧ (0 : Int) ≠ twoSteps.steps.length :=
  ⟨rfl, by decide⟩

end OjsSqs
