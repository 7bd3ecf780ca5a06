import OjsSqs.Workflows.Aside

/-! # What CreateWorkflow leaves

A CreateWorkflow that succeeds has stored the record of a running workflow, and
the jobs of its steps: all of a group or batch, the first of a chain. -/
namespace OjsSqs
open Calls

/-- The jobs of these steps, from the step `k` on. -/
def stepJobs (wfID : String) (k : Nat) (steps : List WorkflowJobRequest) : List Job :=
  (steps.zipIdx k).map fun p => workflowJob wfID p.1 p.2 []

/-- The steps whose jobs CreateWorkflow pushes. -/
def WorkflowRequest.firstSteps (req : WorkflowRequest) : List WorkflowJobRequest :=
  if req.type = "chain" then req.jobList.take 1 else req.jobList

/-- The workflow `wfID` has been created as requested. -/
structure Created (cfg : Config) (req : WorkflowRequest) (wfID : String) (w w' : World) : Prop where
  named : wfID ≠ ""
  fresh : wfID ∉ w.store.workflows
  stored : ∃ t, w'.store.workflows.lookup wfID = some (workflowRecord cfg wfID t req)
  jobs : AddsJobs cfg (stepJobs wfID 0 req.firstSteps) w w'
  results : w'.store.workflowResults = w.store.workflowResults
  started : req.type = "chain" → req.jobList ≠ []

theorem reserved_workflows {ρ : Rules} (o : SystemOp) (w : World) :
    ∀ id ∈ w.store.workflows, id ∈ (ρ.reserving (o.inUse w)).reserved := fun _ hid =>
  List.mem_append_right _ (AList.mem_keys.mpr hid)

section
variable {cfg : Config} {ρ : Rules} (hρ : ρ.faults = false) {w : World}
include hρ

/-- The pushes stop at the first that fails. -/
theorem pushWorkflowJobs_adds (wfID : String) (steps : List WorkflowJobRequest) (k : Nat) :
    wp ρ.env.every (pushWorkflowJobs cfg wfID k steps) (fun a w' =>
      (∀ u, a = .ok u → AddsJobs cfg (stepJobs wfID k steps) w w') ∧
      (∀ other, other ≠ wfID → FlowAside other w w') ∧ SameFlows w w') w := by
  induction steps generalizing k w with
  | nil => exact ⟨fun _ _ => .nothing rfl, fun other _ => .refl other w, rfl, rfl⟩
  | cons step steps ih =>
    rw [pushWorkflowJobs, wp_bind]
    refine wp_mono (Env.every_mono _) _ (pushWorkflowJob_adds hρ rfl rfl) fun a w₁ h₁ => ?_
    have haside : ∀ other, other ≠ wfID → FlowAside other w w₁ := fun other hne =>
      h₁.1.flowAside (fun job hjob => by rw [List.mem_singleton.mp hjob]; exact hne.symm) h₁.2
    cases a with
    | error e => exact ⟨fun _ h => (by cases h), haside, h₁.2⟩
    | ok u =>
      refine wp_mono (Env.every_mono _) _ (ih (w := w₁) (k + 1)) fun a w₂ h₂ => ?_
      exact ⟨fun u hu => h₁.1.trans (h₂.1 u hu),
        fun other hne => (haside other hne).trans (h₂.2.1 other hne), h₁.2.trans h₂.2.2⟩

/-- A CreateWorkflow stores one new workflow. -/
theorem createWorkflow_creates (hres : ∀ id ∈ w.store.workflows, id ∈ ρ.reserved)
    (req : WorkflowRequest) :
    wp ρ.env.every (createWorkflow cfg req) (fun a w' => ∃ wfID,
      (∀ flow, a = .ok flow → flow.id = wfID ∧ Created cfg req wfID w w') ∧
      wfID ∉ w.store.workflows ∧ wfID ∈ w'.store.workflows ∧
      ∀ other, other ≠ wfID → other ≠ "" → FlowAside other w w') w := by
  rw [createWorkflow, wp_bind]
  refine wp_timeNow fun t _ => ?_
  rw [wp_bind]
  refine wp_newUUIDv7 fun wfID hid _ hfresh => ?_
  have hfresh : wfID ∉ w.store.workflows := fun h => hfresh (hres wfID h)
  have hstored : wfID ∈ (w.store.workflows.insert wfID (workflowRecord cfg wfID t req)) :=
    AList.lookup_isSome.mp (by rw [AList.lookup_insert]; rfl)
  have hput : ∀ other, other ≠ wfID →
      FlowAside other w ((w.setClock t).setFlow wfID (workflowRecord cfg wfID t req)) :=
    fun other hne => ⟨AList.lookup_insert_ne hne, fun _ => rfl, fun _ h => h⟩
  simp only
  rw [wp_bind, putWorkflow, wp_request hρ rfl (a := ()) rfl]
  simp only [wp_ite]
  split
  · exact ⟨wfID, fun _ h => (by cases h), hfresh, hstored, fun other hne _ => hput other hne⟩
  · rename_i hstart
    rw [wp_bind]
    refine wp_mono (Env.every_mono _) _ (pushWorkflowJobs_adds hρ (w := (w.setClock t).setFlow wfID
      (workflowRecord cfg wfID t req)) wfID req.firstSteps 0) fun a w' h => ?_
    have hstored' : wfID ∈ w'.store.workflows := by
      rw [h.2.2.workflows]
      exact hstored
    have hothers : ∀ other, other ≠ wfID → other ≠ "" → FlowAside other w w' :=
      fun other hne hother => (hput other hne).trans (h.2.1 other hne)
    cases a with
    | error e => exact ⟨wfID, fun _ h => (by cases h), hfresh, hstored', hothers⟩
    | ok u =>
      refine ⟨wfID, fun flow hflow => ?_, hfresh, hstored', hothers⟩
      obtain rfl := Except.ok.inj hflow
      refine ⟨rfl, hid, hfresh, ⟨t, ?_⟩, (h.1 u rfl).congr rfl, h.2.2.results,
        fun hc hn => hstart ⟨hc, hn⟩⟩
      rw [h.2.2.workflows]
      exact AList.lookup_insert _

/-- **A CreateWorkflow that succeeds.** -/
theorem step_creates {lib : CronLib} {w' : World} {req : WorkflowRequest} {flow : Workflow}
    (hs : SystemStep cfg lib ρ w (.op (.createWorkflow req) (.ok flow)) w') :
    Created cfg req flow.id w w' := by
  cases hs with
  | op o a hfresh hdone hr =>
    have hρ' : (ρ.reserving (SystemOp.inUse (.createWorkflow req) w)).faults = false := hρ
    have h := (wp_iff_runs _ _ _ _).mp (createWorkflow_creates hρ' (reserved_workflows _ w) req) _ w' hr
    obtain ⟨wfID, hok, -⟩ := h
    obtain ⟨rfl, hcreated⟩ := hok flow rfl
    exact hcreated

end
end OjsSqs
