import OjsSqs.Workflows.Chains
import OjsSqs.Workflows.Groups
import OjsSqs.Workflows.Undisturbed

/-! # No workflow is stuck

Only a Cancel, a CancelWorkflow, a Push that replaces a job and a
RetryDeadLetter can disturb a workflow. In a run without them every workflow
runs exactly as long as one of its jobs has not ended. -/
namespace OjsSqs
open Calls

section
variable {cfg : Config} {lib : CronLib} {ρ : Rules} {req : WorkflowRequest} {flow : Workflow}
  {w w₁ : World} {ls : List SystemLabel} {es : List Finish} (hρ : ρ.faults = false)
include hρ

/-- Workflows of all types have the jobs they were told of, and no other ended. -/
theorem flow_endedJobs (h : Creates cfg lib ρ req flow w₁) (hjobs : req.jobList ≠ [])
    (hrun : Path (Noting (flowNotes flow.id) (FlowStep cfg lib ρ flow.id (FlowUndisturbed flow.id)))
      (w₁, []) ls (w, es)) : Agrees cfg w ∧ EndedJobs flow.id es w := by
  obtain ⟨hg, -, -⟩ := reckoned_follows hρ h hjobs (flow_path_any hrun)
  refine ⟨hg, ?_⟩
  by_cases hchain : req.type = "chain"
  · obtain ⟨ids, -, hended⟩ := chain_follows_ended hρ h hchain hjobs hrun
    exact hended
  · obtain ⟨ids, hids, hlen, h₀⟩ := h.groupIn hρ hchain hjobs
    exact (group_follows_ended hρ h hchain hids hlen h₀ hrun).2

/-- A run of such steps leaves the workflow to its jobs. -/
theorem run_undisturbed (h : Creates cfg lib ρ req flow w₁) (hjobs : req.jobList ≠ [])
    {x : World × List Finish}
    (hrun : Path (Noting (flowNotes flow.id) (Meeting
      (fun _ l => l.leavesFlow flow.id = true ∧ l.mayDisturb = false) (SystemStep cfg lib ρ)))
      (w₁, []) ls x) :
    Path (Noting (flowNotes flow.id) (FlowStep cfg lib ρ flow.id (FlowUndisturbed flow.id)))
      (w₁, []) ls x := by
  induction hrun with
  | nil => exact .nil
  | snoc _ hs ih =>
    obtain ⟨hg, hended⟩ := flow_endedJobs hρ h hjobs ih
    obtain ⟨⟨⟨hl, hquiet⟩, hs⟩, hnotes⟩ := hs
    have hundisturbed := step_undisturbed hρ hg hs (SystemLabel.spares_of_quiet hquiet) hended.lasts
    exact ih.snoc ⟨⟨hs, hl, hundisturbed⟩, hnotes⟩

/-- The workflow runs while one of its jobs has not ended. -/
theorem undisturbed_runs_iff (h : Creates cfg lib ρ req flow w₁) (hjobs : req.jobList ≠ [])
    (hrun : Path (Noting (flowNotes flow.id) (FlowStep cfg lib ρ flow.id (FlowUndisturbed flow.id)))
      (w₁, []) ls (w, es)) :
    w.flowRuns flow.id ↔ ∃ id r, w.flowJob flow.id id = some r ∧ isTerminalState r.state = false := by
  by_cases hchain : req.type = "chain"
  · obtain ⟨ids, hI, hended⟩ := chain_follows_ended hρ h hchain hjobs hrun
    constructor
    · intro hr
      obtain ⟨rest, hids, hlen⟩ := hI.order
      rw [hI.reckoned.runs_iff.mp hr] at hlen
      obtain ⟨id, rfl⟩ := List.length_eq_one_iff.mp hlen
      have hmem : id ∈ ids := by simp [hids]
      obtain ⟨r, hr⟩ := Option.isSome_iff_exists.mp ((hI.members id).mpr hmem)
      refine ⟨id, r, hr, hended.others id r hr fun hid => ?_⟩
      have hnodup := hI.nodup
      rw [hids, List.nodup_append] at hnodup
      exact hnodup.2.2 id hid id (List.mem_singleton_self _) rfl
    · intro hopen
      obtain ⟨id, r, hr, hs⟩ := hopen
      by_contra hnot
      rw [(hended.terminal_iff hr).mpr (hI.rest hnot id r hr)] at hs
      cases hs
  · obtain ⟨ids, hids, hlen, h₀⟩ := h.groupIn hρ hchain hjobs
    obtain ⟨hI, hended⟩ := group_follows_ended hρ h hchain hids hlen h₀ hrun
    have hends := hI.ends_iff hended hchain hids hlen
    constructor
    · intro hr
      by_contra hnone
      refine hends.mpr (fun id hid => ?_) hr
      obtain ⟨r, hr⟩ := Option.isSome_iff_exists.mp ((hI.members id).mpr hid)
      refine ⟨r, hr, ?_⟩
      by_contra hs
      exact hnone ⟨id, r, hr, Bool.eq_false_iff.mpr hs⟩
    · rintro ⟨id, r, hr, hs⟩
      by_contra hnot
      obtain ⟨r', hr', hterm⟩ := hends.mp hnot id ((hI.members id).mp (by rw [hr]; rfl))
      rw [hr] at hr'
      obtain rfl := Option.some.inj hr'
      rw [hs] at hterm
      cases hterm

/-- The step may cancel the workflow, but neither replaces a job nor brings one back. -/
def SystemLabel.bringsNone (wfID : String) (l : SystemLabel) : Bool :=
  (l.leavesFlow wfID || l.cancelsFlow wfID) && !l.mayReplace && l.revives.isEmpty

/-- While the workflow runs, no unfinished job of it is cancelled but with the whole
workflow. -/
def CancelsWhole (wfID : String) (w : World) (l : SystemLabel) : Prop :=
  w.flowRuns wfID → l.cancelsFlow wfID = false → ∀ id ∈ l.cancels w, ∀ r, w.flowJob wfID id = some r →
    isTerminalState r.state = true

/-- The workflow is over, or it was left to its jobs so far. -/
structure OverOrLeft (cfg : Config) (lib : CronLib) (ρ : Rules) (wfID : String) (w₁ w : World) :
    Prop where
  agrees : Agrees cfg w
  stored : wfID ∈ w.store.workflows
  left : w.flowRuns wfID → ∃ ls es,
    Path (Noting (flowNotes wfID) (FlowStep cfg lib ρ wfID (FlowUndisturbed wfID))) (w₁, []) ls (w, es)

/-- **One step.** -/
theorem OverOrLeft.step {l : SystemLabel} {w' : World} (h : Creates cfg lib ρ req flow w₁)
    (hjobs : req.jobList ≠ []) (hI : OverOrLeft cfg lib ρ flow.id w₁ w) (hs : SystemStep cfg lib ρ w l w')
    (hl : l.bringsNone flow.id = true) (hcancels : CancelsWhole flow.id w l) :
    OverOrLeft cfg lib ρ flow.id w₁ w' := by
  have hid := (h.stored hρ).1
  obtain ⟨hl, hnone⟩ := Bool.and_eq_true_iff.mp hl
  obtain ⟨hl, hreplace⟩ := Bool.and_eq_true_iff.mp hl
  have hl := Bool.or_eq_true_iff.mp hl
  have hg' := step_agrees hρ hI.agrees hs
  by_cases hruns : w.flowRuns flow.id
  · cases hc : l.cancelsFlow flow.id with
    | true =>
      obtain ⟨hstored', hover⟩ := step_cancelsFlow hρ hI.agrees hs hc hI.stored
      exact ⟨hg', hstored', fun h => absurd h hover⟩
    | false =>
      have hl := hl.resolve_right (Bool.eq_false_iff.mp hc)
      obtain ⟨ls, es, hpath⟩ := hI.left hruns
      have hspares : SparesJobs flow.id w l := by
        refine ⟨by simpa using hreplace, hcancels hruns hc, fun id hmem => ?_⟩
        rw [List.isEmpty_iff.mp hnone] at hmem
        cases hmem
      obtain ⟨-, hended⟩ := flow_endedJobs hρ h hjobs hpath
      have hpath' : Path (Noting (flowNotes flow.id) (FlowStep cfg lib ρ flow.id
          (FlowUndisturbed flow.id))) (w₁, []) (ls ++ [l]) (w', es ++ flowNotes flow.id w l) :=
        hpath.snoc ⟨⟨hs, hl, step_undisturbed hρ hI.agrees hs hspares hended.lasts⟩, rfl⟩
      exact ⟨hg', (reckoned_follows hρ h hjobs (flow_path_any hpath')).2.1, fun _ => ⟨_, _, hpath'⟩⟩
  · obtain ⟨hstored', hover⟩ := step_staysOver hρ hI.agrees hid hs hl hI.stored hruns
    exact ⟨hg', hstored', fun h => absurd h hover⟩

/-- The steps of two runs: one job is cancelled, or all are. -/
def cancelOne (id : String) : SystemAct := .op (.job (.cancel id)) [.ok, .tick 0, .ok, .ok, .ok, .ok]
def cancelBatch : SystemAct := .op (.cancelWorkflow "wf")
  [.ok, .ok, .ok, .ok, .ok, .tick 0, .ok, .ok, .ok, .ok, .tick 0, .ok]

/-- **A workflow whose jobs have all ended has ended**, in every run in which no
unfinished job of the running workflow is cancelled on its own. -/
theorem ended_jobs_end_workflow (h : Creates cfg lib ρ req flow w₁) (hjobs : req.jobList ≠ [])
    (hrun : Path (Meeting (fun w l => l.bringsNone flow.id = true ∧ CancelsWhole flow.id w l)
      (SystemStep cfg lib ρ)) w₁ ls w)
    (hall : ∀ id r, w.flowJob flow.id id = some r → isTerminalState r.state = true) :
    ∃ wf, w.store.workflows.lookup flow.id = some wf ∧ wf.state ≠ .running := by
  have hI : OverOrLeft cfg lib ρ flow.id w₁ w := by
    refine hrun.keeps ⟨h.agrees hρ, (h.stored hρ).2, fun _ => ⟨[], [], .nil⟩⟩ ?_
    exact fun w l w' hI hs => hI.step hρ h hjobs hs.2 hs.1.1 hs.1.2
  obtain ⟨wf, hwf⟩ := Option.isSome_iff_exists.mp (AList.lookup_isSome.mpr hI.stored)
  refine ⟨wf, hwf, fun hruns => ?_⟩
  have hruns : w.flowRuns flow.id := ⟨wf, hwf, hruns⟩
  obtain ⟨ls, es, hpath⟩ := hI.left hruns
  obtain ⟨id, r, hr, hopen⟩ := (undisturbed_runs_iff hρ h hjobs hpath).mp hruns
  rw [hall id r hr] at hopen
  cases hopen

omit hρ in
/-- The batch of two is cancelled when one of its jobs has ended. -/
theorem ended_jobs_end_workflow_cancelled : ∃ (flow : Workflow) (w₁ : World) (ls : List SystemLabel)
    (w : World), Path (SystemStep demo demoLib {}) w₁ ls w ∧
      (["j1", "j2"].map fun id => (w.flowJob flow.id id).map (·.state)) =
        [some .completed, some .cancelled] ∧
      ∃ wf, w.store.workflows.lookup flow.id = some wf ∧ wf.state ≠ .running := by
  have hok : ∀ x ∈ [fetchFirst, ackBatch, cancelBatch], ∀ w l w',
      x.run demo demoLib {} w = some (l, w') → l.bringsNone "wf" = true ∧ CancelsWhole "wf" w l := by
    intro x hx w l w' hr
    simp only [List.mem_cons, List.not_mem_nil, or_false] at hx
    rcases hx with rfl | rfl | rfl <;> obtain ⟨a, rfl, -⟩ := SystemAct.run_op hr
    · exact ⟨rfl, fun _ _ id hmem => absurd hmem List.not_mem_nil⟩
    · exact ⟨rfl, fun _ _ id hmem => absurd hmem List.not_mem_nil⟩
    · exact ⟨rfl, fun _ hc => by cases hc⟩
  obtain ⟨flow, w₁, ls, w, es, hid, hcreates, hpath, hw⟩ := play_demo demoBatch bothJobs _
    (fun _ w _ => ((["j1", "j2"].map fun id => (w.flowJob "wf" id).map (·.state)),
      w.store.jobs.keys.all fun id => (w.flowJob "wf" id).all (isTerminalState ·.state)))
    ([some .completed, some .cancelled], true) rfl hok
  rw [← hid] at hw hpath
  obtain ⟨hstates, hall⟩ := Prod.mk.inj hw
  exact ⟨flow, w₁, ls, w, hpath.unnoted.mono fun _ _ _ hs => hs.2, hstates,
    ended_jobs_end_workflow rfl hcreates (by decide) hpath.unnoted (all_ended hall)⟩

omit hρ in
/-- When both jobs of a group are cancelled one by one, the group goes on running. -/
theorem cancelled_group_runs : ∃ (flow : Workflow) (w₁ : World) (ls : List SystemLabel) (w : World),
    Creates demo demoLib {} demoGroup flow w₁ ∧
    Path (Meeting (fun _ l => l.bringsNone flow.id = true) (SystemStep demo demoLib {})) w₁ ls w ∧
    (∀ id r, w.flowJob flow.id id = some r → isTerminalState r.state = true) ∧
    w.flowRuns flow.id := by
  have hok : ∀ x ∈ [cancelOne "j1", cancelOne "j2"], ∀ w l w',
      x.run demo demoLib {} w = some (l, w') → l.bringsNone "wf" = true := by
    intro x hx w l w' hr
    simp only [List.mem_cons, List.not_mem_nil, or_false] at hx
    rcases hx with rfl | rfl <;> (obtain ⟨a, rfl, -⟩ := SystemAct.run_op hr; rfl)
  obtain ⟨flow, w₁, ls, w, es, hid, hcreates, hpath, hw⟩ := play_demo demoGroup bothJobs _
    (fun _ w _ => (decide (w.flowRuns "wf"),
      w.store.jobs.keys.all fun id => (w.flowJob "wf" id).all (isTerminalState ·.state)))
    (true, true) rfl hok
  rw [← hid] at hw hpath
  obtain ⟨hruns, hall⟩ := Prod.mk.inj hw
  exact ⟨flow, w₁, ls, w, hcreates, hpath.unnoted, all_ended hall, of_decide_eq_true hruns⟩

end
end OjsSqs
