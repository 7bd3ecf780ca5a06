import Mathlib.Data.List.Perm.Subperm
import OjsSqs.Workflows.Ended

/-! # Groups and batches

All jobs of a group are there from its creation, and each is counted once. The
workflow ends with the last of them, and a batch then pushes its callbacks. -/
namespace OjsSqs
open Calls

/-- The jobs `ids` of a group, which was told of the ends `es`. -/
structure GroupIn (cfg : Config) (req : WorkflowRequest) (wfID : String) (ids : List String)
    (es : List Finish) (w : World) : Prop where
  reckoned : ReckonedAs req wfID es w
  told : es.map (·.jobID) ⊆ ids
  members : ∀ id, (w.flowJob wfID id).isSome ↔ id ∈ ids
  steps : ∀ k id, ids[k]? = some id → HasStep cfg req wfID [] k id w

section
variable {cfg : Config} {lib : CronLib} {ρ : Rules} {req : WorkflowRequest} {flow : Workflow}
  {wfID id : String} {ids : List String} {es : List Finish} {w w₁ w' : World} {e : Finish}
  {r : JobRecord} {wf : WorkflowRecord}

/-- A group is over when every job was told of, and none of them twice. -/
theorem isOver_iff_told (hsub : es.map (·.jobID) ⊆ ids) (hgroup : req.type ≠ "chain") (hids : ids.Nodup)
    (hlen : ids.length = req.jobList.length) (honce : (es.map (·.jobID)).Nodup) :
    req.isOver es = true ↔ ∀ id ∈ ids, id ∈ es.map (·.jobID) := by
  have hover : req.isOver es = true ↔ ids.length ≤ (es.map (·.jobID)).length := by
    rw [WorkflowRequest.isOver, decide_eq_false hgroup, Bool.false_and, Bool.or_false,
      decide_eq_true_eq, List.length_map, hlen]
  rw [hover]
  constructor
  · intro hle id hid
    exact ((List.subperm_of_subset honce hsub).perm_of_length_le hle).mem_iff.mpr hid
  · intro hall
    exact (List.subperm_of_subset hids fun id hid => hall id hid).length_le

/-- The group was told of all jobs when it does not run. -/
theorem GroupIn.rest (h : GroupIn cfg req wfID ids es w) (hgroup : req.type ≠ "chain")
    (hids : ids.Nodup) (hlen : ids.length = req.jobList.length) (honce : (es.map (·.jobID)).Nodup)
    (hrun : ¬ w.flowRuns wfID) : ∀ id r, w.flowJob wfID id = some r → id ∈ es.map (·.jobID) := by
  intro id r hr
  have hover : req.isOver es = true := by
    rw [h.reckoned.runs_iff, Bool.not_eq_false] at hrun
    exact hrun
  refine (isOver_iff_told h.told hgroup hids hlen honce).mp hover id ((h.members id).mp ?_)
  rw [hr]
  rfl

theorem GroupIn.stays (h : GroupIn cfg req wfID ids es w) (hf : FlowStays wfID w w') :
    GroupIn cfg req wfID ids es w' where
  reckoned := h.reckoned.stays hf
  told := h.told
  members id := by
    rw [← h.members id]
    cases hr : w.flowJob wfID id with
    | none => rw [hf.aside.noneNew id hr]
    | some r =>
      obtain ⟨r', hr', -⟩ := hf.turns id r hr
      rw [hr']
      rfl
  steps k id hk := (h.steps k id hk).stays hf

/-- The callbacks of a batch are jobs of no workflow. -/
theorem nextJobs_group {step : Int} {failed : Bool} {results : List (Int × String)} {job : Job}
    (hgroup : wf.type ≠ "chain") (h : job ∈ wf.nextJobs wfID step failed results) :
    job.workflowID = "" := by
  rw [WorkflowRecord.nextJobs, if_neg hgroup] at h
  split at h
  · rw [WorkflowRecord.callbackJobs] at h
    split at h
    · cases h
    · obtain ⟨cb, -, rfl⟩ := List.mem_map.mp h
      rfl
  · cases h

theorem GroupIn.moves (h : GroupIn cfg req wfID ids es w) (hm : FlowMoves cfg wfID e r wf w w₁ w')
    (hgroup : req.type ≠ "chain") (hid : wfID ≠ "") : GroupIn cfg req wfID ids (es ++ [e]) w' where
  reckoned := h.reckoned.moves hm
  told := by
    rw [List.map_append]
    refine List.append_subset.mpr ⟨h.told, fun id hid => ?_⟩
    obtain rfl := List.mem_singleton.mp hid
    rw [← h.members, hm.stored_job]
    rfl
  members id := by
    rw [← h.members id]
    have htype : wf.type ≠ "chain" := by
      rw [(h.reckoned.counted hm).type]
      exact hgroup
    constructor
    · intro hsome
      obtain ⟨r', hr'⟩ := Option.isSome_iff_exists.mp hsome
      rcases hm.was hr' with ⟨rfl, -⟩ | ⟨-, hr⟩ | ⟨-, -, job, hjob, -, hwf, -⟩
      · rw [hm.stored_job]
        rfl
      · rw [hr]
        rfl
      · rw [nextJobs_group htype hjob] at hwf
        exact absurd hwf.symm hid
    · intro hsome
      obtain ⟨r', hr'⟩ := Option.isSome_iff_exists.mp hsome
      by_cases he : id = e.jobID
      · obtain ⟨r₁, hr₁, -⟩ := hm.ended
        rw [he, hr₁]
        rfl
      · rw [hm.keeps hr' he]
        rfl
  steps k id hk := (h.steps k id hk).moves hm

/-- A group no longer runs when all of its jobs have ended. -/
theorem GroupIn.ends_iff (h : GroupIn cfg req wfID ids es w) (hended : EndedJobs wfID es w)
    (hgroup : req.type ≠ "chain") (hids : ids.Nodup) (hlen : ids.length = req.jobList.length) :
    ¬ w.flowRuns wfID ↔ ∀ id ∈ ids, ∃ r, w.flowJob wfID id = some r ∧
      isTerminalState r.state = true := by
  rw [h.reckoned.runs_iff, Bool.not_eq_false, isOver_iff_told h.told hgroup hids hlen hended.once]
  constructor
  · intro hall id hid
    obtain ⟨r, hr⟩ := Option.isSome_iff_exists.mp ((h.members id).mpr hid)
    exact ⟨r, hr, (hended.terminal_iff hr).mpr (hall id hid)⟩
  · intro hall id hid
    obtain ⟨r, hr, hterm⟩ := hall id hid
    exact (hended.terminal_iff hr).mp hterm

variable (hρ : ρ.faults = false)
include hρ

/-- A group has its jobs from the beginning. -/
theorem Creates.groupIn (h : Creates cfg lib ρ req flow w₁) (hgroup : req.type ≠ "chain")
    (hjobs : req.jobList ≠ []) :
    ∃ ids : List String, ids.Nodup ∧ ids.length = req.jobList.length ∧
      GroupIn cfg req flow.id ids [] w₁ := by
  obtain ⟨w, hnew, hcreated⟩ := h.created hρ
  obtain ⟨ids, hnodup, hlen, hmembers, hsteps⟩ := hcreated.members hnew.jobs
  rw [WorkflowRequest.firstSteps, if_neg hgroup] at hlen
  exact ⟨ids, hnodup, hlen, h.counted hρ hjobs, List.nil_subset _, hmembers, hsteps⟩

/-- **The run of a group.** -/
theorem group_follows (h : Creates cfg lib ρ req flow w₁) (hgroup : req.type ≠ "chain")
    {ids : List String} (h₀ : GroupIn cfg req flow.id ids [] w₁) {D : World → World → Prop}
    {ls : List SystemLabel} {w : World} {es : List Finish}
    (hrun : Path (Noting (flowNotes flow.id) (FlowStep cfg lib ρ flow.id D)) (w₁, []) ls (w, es)) :
    GroupIn cfg req flow.id ids es w := by
  obtain ⟨hid, hstored⟩ := h.stored hρ
  refine (flow_follows hρ hid (h.agrees hρ) hstored h₀ ?_ ?_ hrun).2.2
  · intro es w w' _ hI hf _
    exact hI.stays hf
  · intro es e r wf w w₁ w' _ hI hm _
    exact hI.moves hm hgroup hid

/-- The same, when the jobs that have ended are left alone. -/
theorem group_follows_ended (h : Creates cfg lib ρ req flow w₁) (hgroup : req.type ≠ "chain")
    {ids : List String} (hids : ids.Nodup) (hlen : ids.length = req.jobList.length)
    (h₀ : GroupIn cfg req flow.id ids [] w₁) {ls : List SystemLabel} {w : World} {es : List Finish}
    (hrun : Path (Noting (flowNotes flow.id) (FlowStep cfg lib ρ flow.id (FlowUndisturbed flow.id)))
      (w₁, []) ls (w, es)) : GroupIn cfg req flow.id ids es w ∧ EndedJobs flow.id es w := by
  obtain ⟨hid, hstored⟩ := h.stored hρ
  obtain ⟨w₀, hnew, hcreated⟩ := h.created hρ
  refine (flow_follows hρ (I := fun es w => GroupIn cfg req flow.id ids es w ∧ EndedJobs flow.id es w)
    hid (h.agrees hρ) hstored ⟨h₀, hcreated.endedJobs hnew.jobs⟩ ?_ ?_ hrun).2.2
  · rintro es w w' _ ⟨hI, hended⟩ hf hD
    exact ⟨hI.stays hf, hended.stays hf hD (hI.rest hgroup hids hlen hended.once)⟩
  · rintro es e r wf w w₁ w' _ ⟨hI, hended⟩ hm _
    exact ⟨hI.moves hm hgroup hid, hended.moves hm⟩

end

/-! ## The callbacks of a batch -/

/-- The jobs a group or batch pushes when it is told of the last of these ends. -/
def WorkflowRequest.callbackJobs (req : WorkflowRequest) (es : List Finish) : List Job :=
  if req.type = "batch" ∧ req.isOver es = true then
    match req.callbacks with
    | none => []
    | some cbs =>
      (cbs.onComplete.toList ++ (if anyFailed es then cbs.onFailure else cbs.onSuccess).toList).map
        callbackJob
  else []

section
variable {cfg : Config} {lib : CronLib} {ρ : Rules} {req : WorkflowRequest} {flow : Workflow}
  {wfID : String} {es : List Finish} {w w₁ w' : World} {e : Finish} {wf : WorkflowRecord}

theorem Reckoned.nextJobs (h : Reckoned req es wf) (hrun : wf.state = .running)
    (hgroup : req.type ≠ "chain") (step : Int) (results : List (Int × String)) :
    wf.nextJobs wfID step e.failed results = req.callbackJobs (es ++ [e]) := by
  rw [WorkflowRecord.nextJobs, if_neg (by rw [h.type]; exact hgroup), h.ends hrun, h.endsFailed hrun,
    h.type, WorkflowRequest.callbackJobs, WorkflowRecord.callbackJobs, h.callbacks]
  cases req.callbacks <;> rfl

/-- The callbacks of a batch when a job was discarded, or none. -/
def WorkflowRequest.outcomeJobs (req : WorkflowRequest) (failed : Bool) : List Job :=
  match req.callbacks with
  | none => []
  | some cbs =>
    (cbs.onComplete.toList ++ (if failed then cbs.onFailure else cbs.onSuccess).toList).map callbackJob

/-- The step is an Ack or a Nack of one of the jobs. -/
def SystemLabel.reports (ids : List String) : SystemLabel → Bool
  | .op (.job (.ack id _)) _ | .op (.job (.nack id _ _)) _ => decide (id ∈ ids)
  | _ => false

/-- The step stores new jobs of these definitions, and no others. -/
def PushesJobs (cfg : Config) (specs : List Job) (w w' : World) : Prop :=
  ∃ w₁, (∀ id, w₁.store.jobs.lookup id = none ↔ w.store.jobs.lookup id = none) ∧
    AddsJobs cfg specs w₁ w'

theorem Closes.stores {r : JobRecord} {specs : List Job} {w₂ : World} (h : Closes e r w w₂)
    (hadds : AddsJobs cfg specs w₂ w') : PushesJobs cfg specs w w' := by
  refine ⟨w₂, fun id => ?_, hadds⟩
  by_cases hid : id = e.jobID
  · subst hid
    obtain ⟨r', hr', -⟩ := h.closed
    rw [hr', h.stored]
    exact ⟨fun h => (by cases h), fun h => (by cases h)⟩
  · rw [h.others id hid]

/-- A step that reports on a job of the workflow. -/
theorem SystemLabel.reports_cases (wfID : String) {ids : List String} {l : SystemLabel}
    (h : l.reports ids = true) :
    l.leavesFlow wfID = true ∧ ∀ e, l.finish = some e → e.jobID ∈ ids := by
  cases l with
  | env l => cases h
  | op o a =>
    cases o with
    | job o =>
      cases o with
      | ack id result =>
        refine ⟨rfl, fun e he => ?_⟩
        cases a with
        | error err => cases he
        | ok res =>
          cases he
          exact of_decide_eq_true h
      | nack id err requeue =>
        refine ⟨rfl, fun e he => ?_⟩
        cases a with
        | error err => cases he
        | ok res =>
          simp only [SystemLabel.finish] at he
          split at he
          · cases he
            exact of_decide_eq_true h
          · cases he
      | _ => cases h
    | _ => cases h

/-- An Ack or a Nack that ends no job stores no new one. -/
theorem step_reports_none (hρ : ρ.faults = false) {ids : List String} {l : SystemLabel}
    (hs : SystemStep cfg lib ρ w l w') (hl : l.reports ids = true) (he : l.finish = none) :
    PushesJobs cfg [] w w' := by
  have hsame : ∀ {w' : World}, (∀ id, w'.store.jobs.lookup id = none ↔ w.store.jobs.lookup id = none) →
      PushesJobs cfg [] w w' := fun h => ⟨_, h, .nothing rfl⟩
  cases hs with
  | env l hop hs => cases hl
  | op o a hfresh hdone hr =>
    have hρ' : (ρ.reserving (o.inUse w)).faults = false := hρ
    cases o with
    | job o =>
      cases o with
      | ack id result =>
        have h := wp_runs (ack_ends hρ' id result) hr
        cases a with
        | error err =>
          obtain rfl : w' = w := h
          exact hsame fun _ => Iff.rfl
        | ok res => cases he
      | nack id err requeue =>
        have h := wp_runs (nack_ends hρ' id err requeue) hr
        cases a with
        | error err =>
          obtain rfl : w' = w := h
          exact hsame fun _ => Iff.rfl
        | ok res =>
          rw [AfterNack] at h
          simp only [SystemLabel.finish] at he
          split at he
          · cases he
          · rename_i hd
            rw [if_neg hd] at h
            obtain ⟨r, r', hr, -, hr', -⟩ := h.stored
            refine hsame fun i => ?_
            by_cases hi : i = id
            · rw [hi, hr, hr']
              exact ⟨fun h => (by cases h), fun h => (by cases h)⟩
            · rw [h.others i hi]
      | _ => cases hl
    | _ => cases hl

/-- A job of the workflow ends that no longer runs: nothing follows. -/
theorem Ends.stores_none (h : Ends cfg e w w') (hjob : (w.flowJob wfID e.jobID).isSome)
    (hid : wfID ≠ "") (hrun : ¬ w.flowRuns wfID) : PushesJobs cfg [] w w' := by
  obtain ⟨r, w₁, hcloses, htells⟩ := h
  obtain ⟨r', hr'⟩ := Option.isSome_iff_exists.mp hjob
  obtain ⟨hr', hwf⟩ := flowJob_eq_some.mp hr'
  rw [hcloses.stored] at hr'
  obtain rfl := Option.some.inj hr'
  have hnone : (w.store.workflows.lookup r.workflowID).filter (·.state = .running) = none := by
    rw [Option.filter_eq_none_iff]
    intro wf hwf' hs
    exact hrun ⟨wf, hwf ▸ hwf', of_decide_eq_true hs⟩
  rw [Tells, World.runningFlow, hcloses.flows.workflows, if_neg (hwf ▸ hid), hnone] at htells
  obtain rfl : w' = w₁ := htells
  exact hcloses.stores (.nothing rfl)

/-- An Ack or a Nack of one of the batch's jobs, none of which was told of twice. -/
theorem GroupIn.reports (hρ : ρ.faults = false) {ids : List String} (hI : GroupIn cfg req wfID ids es w)
    (hg : Agrees cfg w) (hid : wfID ≠ "") (hbatch : req.type = "batch") (hids : ids.Nodup)
    (hlen : ids.length = req.jobList.length) {l : SystemLabel} (hs : SystemStep cfg lib ρ w l w')
    (hl : l.reports ids = true) (honce : ((es ++ flowNotes wfID w l).map (·.jobID)).Nodup) :
    PushesJobs cfg (if flowNotes wfID w l ≠ [] ∧
        ∀ id ∈ ids, id ∈ (es ++ flowNotes wfID w l).map (·.jobID)
      then req.outcomeJobs (anyFailed (es ++ flowNotes wfID w l)) else []) w w' := by
  have hgroup : req.type ≠ "chain" := by
    rw [hbatch]
    decide
  obtain ⟨wf, hwf, -⟩ := hI.reckoned
  have hstored : wfID ∈ w.store.workflows := AList.lookup_isSome.mp (by rw [hwf]; rfl)
  obtain ⟨hleaves, hmember⟩ := SystemLabel.reports_cases wfID hl
  rcases step_flow hρ hg hid (fun _ => hstored) hs hleaves with ⟨-, hnotes⟩ | ⟨e, r, wf, w₂, hm, hnotes⟩
  · -- the batch is told of nothing
    rw [hnotes, if_neg fun h => h.1 rfl]
    cases he : l.finish with
    | none => exact step_reports_none hρ hs hl he
    | some e =>
      have hjob : (w.flowJob wfID e.jobID).isSome := (hI.members _).mpr (hmember e he)
      refine (step_finish hρ hs he).stores_none hjob hid fun hrun => ?_
      rw [flowNotes, he, Option.toList_some, List.filter_cons_of_pos (by simp [hjob, hrun])] at hnotes
      cases hnotes
  · -- the batch is told of an end
    rw [hnotes] at honce ⊢
    have hpushed := hm.closes.stores hm.adds
    rw [show hm.specs = req.callbackJobs (es ++ [e]) from
      (hI.reckoned.counted hm).nextJobs hm.running hgroup _ _, WorkflowRequest.callbackJobs] at hpushed
    have hover := isOver_iff_told (hI.moves hm hgroup hid).told hgroup hids hlen honce
    by_cases hall : ∀ id ∈ ids, id ∈ (es ++ [e]).map (·.jobID)
    · rw [if_pos ⟨hbatch, hover.mpr hall⟩] at hpushed
      rw [if_pos ⟨List.cons_ne_nil _ _, hall⟩]
      exact hpushed
    · rw [if_neg fun h => hall (hover.mp h.2)] at hpushed
      rw [if_neg fun h => hall h.2]
      exact hpushed

/-- **The callbacks of a batch.** Whatever goes on beside it, and in whatever
order its jobs end, an Ack or a Nack of one of them pushes nothing before the last
of them ends; then `on_complete` is pushed, and `on_failure` or `on_success` as a
job was discarded or none, each once where it is defined, and nothing else. -/
theorem batch_fires_callbacks (hρ : ρ.faults = false) (h : Creates cfg lib ρ req flow w₁)
    (hbatch : req.type = "batch") (hjobs : req.jobList ≠ []) :
    ∃ ids : List String, ids.Nodup ∧ ids.length = req.jobList.length ∧
      (∀ id, (w₁.flowJob flow.id id).isSome ↔ id ∈ ids) ∧
      ∀ ls w es l w', Path (Noting (flowNotes flow.id) (FlowStep cfg lib ρ flow.id fun _ _ => True))
          (w₁, []) ls (w, es) → SystemStep cfg lib ρ w l w' → l.reports ids = true →
        ((es ++ flowNotes flow.id w l).map (·.jobID)).Nodup →
        PushesJobs cfg (if flowNotes flow.id w l ≠ [] ∧
            ∀ id ∈ ids, id ∈ (es ++ flowNotes flow.id w l).map (·.jobID)
          then req.outcomeJobs (anyFailed (es ++ flowNotes flow.id w l)) else []) w w' := by
  have hgroup : req.type ≠ "chain" := by
    rw [hbatch]
    decide
  obtain ⟨ids, hids, hlen, h₀⟩ := h.groupIn hρ hgroup hjobs
  refine ⟨ids, hids, hlen, h₀.members, fun ls w es l w' hrun hs hl honce => ?_⟩
  obtain ⟨hg, -, -⟩ := reckoned_follows hρ h hjobs hrun
  have hI := group_follows hρ h hgroup h₀ hrun
  exact hI.reports hρ hg (h.stored hρ).1 hbatch hids hlen hs hl honce

/-- The second of two jobs is discarded: `on_complete` and `on_failure` are pushed. -/
theorem batch_fires_callbacks_failed : ∃ (flow : Workflow) (w₁ : World) (ls : List SystemLabel)
    (w w' : World) (a : Except Error NackResponse),
    Path (Noting (flowNotes flow.id) (FlowStep demo demoLib {} flow.id fun _ _ => True))
      (w₁, []) ls (w, [⟨"j1", false, some "1"⟩]) ∧
    SystemStep demo demoLib {} w (.op (.job (.nack "j2" (some fatalError) false)) a) w' ∧
    PushesJobs demo [callbackJob { type := "done" }, callbackJob { type := "failed" }] w w' := by
  obtain ⟨flow, w₁, ls, w, a, w', hcreates, hstored, hpath, hstep, hnotes⟩ := batch_demo_last
  obtain ⟨ids, hids, hlen, hmembers, hall⟩ := batch_fires_callbacks rfl hcreates rfl (by decide)
  have hsub : ["j1", "j2"] ⊆ ids := fun id hid => (hmembers id).mp (hstored id hid)
  have hperm : ["j1", "j2"].Perm ids :=
    (List.subperm_of_subset (by decide) hsub).perm_of_length_le (le_of_eq hlen)
  have h := hall ls w _ _ w' hpath hstep (decide_eq_true (hsub (by decide))) (by rw [hnotes]; decide)
  rw [hnotes, if_pos ⟨List.cons_ne_nil _ _, fun id hid => hperm.mem_iff.mpr hid⟩] at h
  exact ⟨flow, w₁, ls, w, w', a, hpath, hstep, h⟩

end
end OjsSqs
