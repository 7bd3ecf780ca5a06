import OjsSqs.System.Pushing

/-! # What AdvanceWorkflow does

Without failures the end of a job moves the record of its workflow once, and
stores the new jobs that follow from it: the next step of a chain, or the
callbacks of a batch. -/
namespace OjsSqs
open Calls

/-! ## New jobs -/

/-- The record of a job that was pushed under the identifier `id`. -/
def newRecord (cfg : Config) (now : Time) (id : String) (job : Job) : JobRecord :=
  jobToRecord (newJob cfg now (assigned cfg now id job))

/-- Jobs made from `specs` have been stored under new identifiers, and no other
record was written. -/
def AddsJobs (cfg : Config) (specs : List Job) (w w' : World) : Prop :=
  ∃ new : List (String × Job), new.map Prod.snd = specs ∧ (new.map Prod.fst).Nodup ∧
    (∀ p ∈ new, w.store.jobs.lookup p.1 = none ∧
      ∃ t, w'.store.jobs.lookup p.1 = some (newRecord cfg t p.1 p.2)) ∧
    ∀ id, id ∉ new.map Prod.fst → w'.store.jobs.lookup id = w.store.jobs.lookup id

/-- The tables of the workflows and of their results are the same. -/
structure SameFlows (w w' : World) : Prop where
  workflows : w'.store.workflows = w.store.workflows
  results : w'.store.workflowResults = w.store.workflowResults

section
variable {cfg : Config} {w w₁ w₂ : World} {specs specs' : List Job} {now : Time} {id : String}
  {job : Job}

@[simp] theorem newRecord_workflowID : (newRecord cfg now id job).workflowID = job.workflowID := by
  simp only [newRecord, newJob]
  split <;> rfl

@[simp] theorem newRecord_workflowStep :
    (newRecord cfg now id job).workflowStep = job.workflowStep := by
  simp only [newRecord, newJob]
  split <;> rfl

@[simp] theorem newRecord_expiresAt : (newRecord cfg now id job).expiresAt = job.expiresAt := by
  simp only [newRecord, newJob]
  split <;> rfl

@[simp] theorem newRecord_parentResults :
    (newRecord cfg now id job).parentResults = jsonOfList job.parentResults := by
  simp only [newRecord, newJob]
  split <;> rfl

/-- A new job waits. -/
theorem newRecord_state : (newRecord cfg now id job).state = .available ∨
    (newRecord cfg now id job).state = .scheduled := by
  simp only [newRecord, newJob]
  split
  · exact .inr rfl
  · exact .inl rfl

theorem SameFlows.trans (h : SameFlows w w₁) (h' : SameFlows w₁ w₂) : SameFlows w w₂ :=
  ⟨h'.workflows.trans h.workflows, h'.results.trans h.results⟩

theorem AddsJobs.nothing (h : w₁.store.jobs = w.store.jobs) : AddsJobs cfg [] w w₁ :=
  ⟨[], rfl, List.nodup_nil, fun _ hp => absurd hp List.not_mem_nil, fun id _ => by rw [h]⟩

theorem AddsJobs.congr (h : AddsJobs cfg specs w w₁) (h₀ : w₂.store.jobs = w.store.jobs) :
    AddsJobs cfg specs w₂ w₁ := by
  rw [AddsJobs, h₀]
  exact h

theorem AddsJobs.trans (h : AddsJobs cfg specs w w₁) (h' : AddsJobs cfg specs' w₁ w₂) :
    AddsJobs cfg (specs ++ specs') w w₂ := by
  obtain ⟨new, rfl, hnodup, hnew, hold⟩ := h
  obtain ⟨new', rfl, hnodup', hnew', hold'⟩ := h'
  -- the identifiers of the first are in use when the others are made
  have hapart : ∀ id ∈ new.map Prod.fst, id ∉ new'.map Prod.fst := by
    intro id hid hid'
    obtain ⟨p, hp, rfl⟩ := List.mem_map.mp hid
    obtain ⟨p', hp', he⟩ := List.mem_map.mp hid'
    obtain ⟨-, t, hr⟩ := hnew p hp
    rw [← he, (hnew' p' hp').1] at hr
    cases hr
  refine ⟨new ++ new', List.map_append, ?_, fun p hp => ?_, fun id hid => ?_⟩
  · rw [List.map_append, List.nodup_append]
    exact ⟨hnodup, hnodup', fun a ha b hb he => hapart a ha (he ▸ hb)⟩
  · rcases List.mem_append.mp hp with hp | hp
    · obtain ⟨hnone, t, hr⟩ := hnew p hp
      exact ⟨hnone, t, (hold' _ (hapart _ (List.mem_map_of_mem hp))).trans hr⟩
    · obtain ⟨hnone, hr⟩ := hnew' p hp
      refine ⟨?_, hr⟩
      rw [← hold p.1 fun hin => hapart _ hin (List.mem_map_of_mem hp)]
      exact hnone
  · rw [List.map_append, List.mem_append, not_or] at hid
    exact (hold' id hid.2).trans (hold id hid.1)

/-- A job that was stored has the record it had. -/
theorem AddsJobs.kept (h : AddsJobs cfg specs w w₁) {r : JobRecord}
    (hr : w.store.jobs.lookup id = some r) : w₁.store.jobs.lookup id = some r := by
  obtain ⟨new, -, -, hnew, hold⟩ := h
  rw [hold id fun hid => ?_, hr]
  obtain ⟨p, hp, rfl⟩ := List.mem_map.mp hid
  rw [(hnew p hp).1] at hr
  cases hr

/-- A job is stored that was not, or its record is the one it had. -/
theorem AddsJobs.cases (h : AddsJobs cfg specs w w₁) (id : String) :
    w₁.store.jobs.lookup id = w.store.jobs.lookup id ∨ w.store.jobs.lookup id = none ∧
      ∃ job ∈ specs, ∃ t, w₁.store.jobs.lookup id = some (newRecord cfg t id job) := by
  obtain ⟨new, rfl, -, hnew, hold⟩ := h
  by_cases hid : id ∈ new.map Prod.fst
  · obtain ⟨p, hp, rfl⟩ := List.mem_map.mp hid
    exact .inr ⟨(hnew p hp).1, p.2, List.mem_map_of_mem hp, (hnew p hp).2⟩
  · exact .inl (hold id hid)

theorem pushed_flows : SameFlows w (w.pushed cfg now job) := by
  refine ⟨pushed_workflows, ?_⟩
  rw [World.pushed]
  split
  · simp only [World.registerQueue, World.setQueues]
    split <;> rfl
  · rw [World.sendJob_store]
    simp only [World.registerQueue, World.setQueues]
    split <;> rfl

end

section
variable {cfg : Config} {ρ : Rules} (hρ : ρ.faults = false) {w : World}
include hρ

/-- **A Push** adds the job, whether or not it can be sent. -/
theorem push_adds {job : Job} (hid : job.id = "") (hu : job.unique = none) :
    wp ρ.env.every (push cfg job) (fun _ w' => AddsJobs cfg [job] w w' ∧ SameFlows w w') w := by
  refine wp_push_plain hρ hu (.inl hid) fun t i _ hnone _ _ => ⟨?_, ?_⟩
  · refine ⟨[(i, job)], rfl, List.nodup_singleton i, fun p hp => ?_, fun j hj => ?_⟩
    · obtain rfl := List.mem_singleton.mp hp
      refine ⟨hnone, t, ?_⟩
      rw [pushed_jobs]
      exact AList.lookup_insert _
    · rw [pushed_jobs]
      exact AList.lookup_insert_ne fun he => hj (by simp [he, assigned])
  · have hclock : SameFlows w (w.setClock t) := ⟨rfl, rfl⟩
    exact hclock.trans pushed_flows

end

/-! ## One more job has finished -/

/-- The workflow ends with this job: all jobs have finished, or a step of a chain
has failed. -/
def WorkflowRecord.ends (wf : WorkflowRecord) (failed : Bool) : Bool :=
  allFinished wf failed || decide (wf.type = "chain") && failed

/-- A chain fails with a step, a group or batch with any of its jobs. -/
def WorkflowRecord.endsFailed (wf : WorkflowRecord) (failed : Bool) : Bool :=
  if wf.type = "chain" then failed else decide (0 < failedAfter wf failed)

/-- The record after one more job has finished. -/
def WorkflowRecord.advanced (wf : WorkflowRecord) (failed : Bool) (now : String) : WorkflowRecord :=
  let counted := { wf with completed := completedAfter wf failed, failed := failedAfter wf failed }
  if wf.ends failed then
    { counted with
      state := if wf.endsFailed failed then .failed else .completed
      completedAt := now }
  else counted

/-- The job of a callback. -/
def callbackJob (cb : WorkflowCallback) : Job where
  type := cb.type
  args := cb.args
  queue := queueOrDefault cb.queue

/-- The callbacks of a batch that has ended. -/
def WorkflowRecord.callbackJobs (wf : WorkflowRecord) (hasFailure : Bool) : List Job :=
  match wf.callbacks.unmarshal with
  | none => []
  | some cbs =>
    (cbs.onComplete.toList ++ (if hasFailure then cbs.onFailure else cbs.onSuccess).toList).map
      callbackJob

/-- The next step of a chain, with the results there are. -/
def WorkflowRecord.nextSteps (wf : WorkflowRecord) (workflowID : String) (step : Int)
    (results : List (Int × String)) : List Job :=
  match wf.jobDefs.unmarshal with
  | none => []
  | some jobDefs =>
    (jobDefs[step.toNat]?).toList.map fun req =>
      workflowJob workflowID req step (parentResultsOf results step.toNat)

/-- What is pushed when the job of `step` has finished. -/
def WorkflowRecord.nextJobs (wf : WorkflowRecord) (workflowID : String) (step : Int) (failed : Bool)
    (results : List (Int × String)) : List Job :=
  if wf.type = "chain" then
    if wf.ends failed then [] else wf.nextSteps workflowID (step + 1) results
  else if wf.type = "batch" ∧ wf.ends failed = true then wf.callbackJobs (wf.endsFailed failed)
  else []

/-- The world with the result of a step, when there is one. -/
def World.withResult (workflowID : String) (step : Int) (result : Option String) (w : World) : World :=
  match result with
  | none => w
  | some res =>
    if res = "" then w
    else w.setStore { w.store with
      workflowResults := w.store.workflowResults.insert (workflowID, step) res }

/-- What one more finished job of the workflow does: `wf` was the record of the
workflow, and `step` is the job's step. -/
structure FlowAdvances (cfg : Config) (workflowID : String) (wf : WorkflowRecord) (step : Int)
    (failed : Bool) (w w' : World) : Prop where
  record : ∃ now, w'.store.workflows.lookup workflowID =
    some (wf.advanced failed (cfg.formatTime now))
  others : ∀ i, i ≠ workflowID → w'.store.workflows.lookup i = w.store.workflows.lookup i
  results : w'.store.workflowResults = w.store.workflowResults
  jobs : AddsJobs cfg (wf.nextJobs workflowID step failed (w.store.resultsOf workflowID)) w w'

/-- The workflow the job belongs to, if it is running. -/
def World.runningFlow (w : World) (r : JobRecord) : Option WorkflowRecord :=
  if r.workflowID = "" then none
  else (w.store.workflows.lookup r.workflowID).filter (·.state = .running)

/-- What telling its workflow of a finished job does. -/
def Tells (cfg : Config) (r : JobRecord) (result : Option String) (failed : Bool) (w w' : World) :
    Prop :=
  match w.runningFlow r with
  | none => w' = w
  | some wf => FlowAdvances cfg r.workflowID wf r.workflowStep failed
      (w.withResult r.workflowID r.workflowStep result) w'

/-! ## The calls about workflows -/

def World.setFlow (id : String) (wf : WorkflowRecord) (w : World) : World :=
  w.setStore { w.store with workflows := w.store.workflows.insert id wf }

section
variable {cfg : Config} {ρ : Rules} (hρ : ρ.faults = false) {w : World}
include hρ

theorem wp_getWorkflowRecord_some {id : String} {wf : WorkflowRecord}
    (h : w.store.workflows.lookup id = some wf) (Q : Except Error WorkflowRecord → World → Prop) :
    wp ρ.env.every (getWorkflowRecord id) Q w = Q (.ok wf) w := by
  rw [getWorkflowRecord, wp_bind, wp_dynamo hρ rfl]
  simp only [Store.run, h]
  rfl

theorem wp_updateWorkflow {id : String} {wf : WorkflowRecord} {us : List WorkflowUpdate}
    (h : w.store.workflows.lookup id = some wf) (hus : us.isEmpty = false)
    (Q : Except Error Unit → World → Prop) :
    wp ρ.env.every (updateWorkflow id us) Q w = Q (.ok ()) (w.setFlow id (wf.update us)) := by
  rw [updateWorkflow, if_neg (by simp [hus])]
  have hrun : w.store.run (.updateWorkflowItem id us) =
      (.ok (), (w.setFlow id (wf.update us)).store) := by
    simp only [Store.run, h]
    rfl
  rw [wp_request hρ rfl hrun]
  rfl

theorem wp_storeResult {workflowID : String} {step : Int} {result : Option String}
    (Q : Unit → World → Prop) :
    wp ρ.env.every (storeResult workflowID step result) Q w =
      Q () (w.withResult workflowID step result) := by
  cases result with
  | none => rfl
  | some res =>
    rw [storeResult, World.withResult, wp_ite]
    split
    · rfl
    · rw [wp_bind, setWorkflowResult, wp_request hρ rfl (a := ()) rfl]
      rfl

/-! ## AdvanceWorkflow -/

theorem pushWorkflowJob_adds {workflowID : String} {job : Job} (hid : job.id = "")
    (hu : job.unique = none) :
    wp ρ.env.every (pushWorkflowJob cfg workflowID job)
      (fun _ w' => AddsJobs cfg [job] w w' ∧ SameFlows w w') w := by
  rw [pushWorkflowJob, wp_bind]
  refine wp_mono (Env.every_mono _) _ (push_adds hρ hid hu) fun a w' h => ?_
  cases a with
  | error e => exact h
  | ok created =>
    simp only
    rw [wp_bind, addWorkflowJob, wp_request hρ rfl (a := ()) rfl]
    exact ⟨h.1, h.2.workflows, h.2.results⟩

theorem enqueueChainStep_adds {workflowID : String} {wf : WorkflowRecord} {step : Int} :
    wp ρ.env.every (enqueueChainStep cfg workflowID wf step) (fun _ w' =>
      AddsJobs cfg (wf.nextSteps workflowID step (w.store.resultsOf workflowID)) w w' ∧
        SameFlows w w') w := by
  rw [enqueueChainStep, WorkflowRecord.nextSteps]
  cases wf.jobDefs.unmarshal with
  | none => exact ⟨.nothing rfl, rfl, rfl⟩
  | some jobDefs =>
    simp only
    cases jobDefs[step.toNat]? with
    | none => exact ⟨.nothing rfl, rfl, rfl⟩
    | some req =>
      simp only
      rw [wp_bind, getWorkflowResults, wp_request hρ rfl (a := w.store.resultsOf workflowID) rfl]
      exact pushWorkflowJob_adds hρ rfl rfl

theorem fireIfDefined_adds (cb : Option WorkflowCallback) :
    wp ρ.env.every (fireIfDefined cfg cb) (fun _ w' =>
      AddsJobs cfg (cb.toList.map callbackJob) w w' ∧ SameFlows w w') w := by
  cases cb with
  | none => exact ⟨.nothing rfl, rfl, rfl⟩
  | some cb =>
    rw [fireIfDefined, fireCallback, wp_bind]
    exact wp_mono (Env.every_mono _) _ (push_adds hρ rfl rfl) fun _ _ h => h

theorem fireBatchCallbacks_adds (wf : WorkflowRecord) (hasFailure : Bool) :
    wp ρ.env.every (fireBatchCallbacks cfg wf hasFailure) (fun _ w' =>
      AddsJobs cfg (wf.callbackJobs hasFailure) w w' ∧ SameFlows w w') w := by
  rw [fireBatchCallbacks, WorkflowRecord.callbackJobs]
  cases wf.callbacks.unmarshal with
  | none => exact ⟨.nothing rfl, rfl, rfl⟩
  | some cbs =>
    simp only
    rw [wp_bind]
    refine wp_mono (Env.every_mono _) _ (fireIfDefined_adds hρ cbs.onComplete) fun _ w₁ h₁ => ?_
    have hlast : ∀ cb, wp ρ.env.every (fireIfDefined cfg cb) (fun _ w' =>
        AddsJobs cfg ((cbs.onComplete.toList ++ cb.toList).map callbackJob) w w' ∧
          SameFlows w w') w₁ := by
      intro cb
      refine wp_mono (Env.every_mono _) _ (fireIfDefined_adds hρ cb) fun _ w₂ h₂ => ?_
      rw [List.map_append]
      exact ⟨h₁.1.trans h₂.1, h₁.2.trans h₂.2⟩
    cases hasFailure with
    | true => exact hlast cbs.onFailure
    | false => exact hlast cbs.onSuccess

omit hρ in
theorem setFlow_setFlow (id : String) (wf wf' : WorkflowRecord) (t : Time) (w : World) :
    ((w.setFlow id wf).setClock t).setFlow id wf' = (w.setClock t).setFlow id wf' := by
  simp only [World.setFlow, World.setStore, World.setClock, AList.insert_insert]

omit hρ in
/-- The record is written and what follows is pushed. -/
theorem FlowAdvances.of_setFlow {workflowID : String} {wf wf' : WorkflowRecord} {step : Int}
    {failed : Bool} {w' : World} {t n : Time} {specs : List Job}
    (hwf : wf' = wf.advanced failed (cfg.formatTime n))
    (hspecs : wf.nextJobs workflowID step failed (w.store.resultsOf workflowID) = specs)
    (h : AddsJobs cfg specs ((w.setClock t).setFlow workflowID wf') w')
    (hflows : SameFlows ((w.setClock t).setFlow workflowID wf') w') :
    FlowAdvances cfg workflowID wf step failed w w' where
  record := ⟨n, by rw [hflows.workflows, ← hwf]; exact AList.lookup_insert _⟩
  others i hi := by rw [hflows.workflows]; exact AList.lookup_insert_ne hi
  results := hflows.results
  jobs := by rw [hspecs]; exact h.congr rfl

theorem advanceChain_advances {workflowID : String} {wf : WorkflowRecord} {step : Int} {failed : Bool}
    (hwf : w.store.workflows.lookup workflowID = some wf) (hchain : wf.type = "chain") :
    wp ρ.env.every (advanceChain cfg workflowID wf step failed)
      (fun _ w' => FlowAdvances cfg workflowID wf step failed w w') w := by
  have hdone : wf.ends failed = true →
      wf.nextJobs workflowID step failed (w.store.resultsOf workflowID) = [] := by
    intro hends
    rw [WorkflowRecord.nextJobs, if_pos hchain, if_pos hends]
  rw [advanceChain]
  cases failed with
  | true =>
    have hends : wf.ends true = true := by simp [WorkflowRecord.ends, hchain]
    simp only [if_true]
    rw [wp_bind]
    refine wp_nowFormatted cfg fun t _ => ?_
    rw [wp_bind, wp_updateWorkflow hρ (w := w.setClock t) hwf rfl]
    refine .of_setFlow (t := t) (n := t) ?_ (hdone hends) (.nothing rfl) ⟨rfl, rfl⟩
    rw [WorkflowRecord.advanced, if_pos hends, WorkflowRecord.endsFailed, if_pos hchain]
    rfl
  | false =>
    simp only [Bool.false_eq_true, if_false]
    by_cases hall : allFinished wf false = true
    · have hends : wf.ends false = true := by simp [WorkflowRecord.ends, hall]
      rw [if_pos hall, wp_bind]
      refine wp_nowFormatted cfg fun t _ => ?_
      rw [wp_bind, wp_updateWorkflow hρ (w := w.setClock t) hwf rfl]
      refine .of_setFlow (t := t) (n := t) ?_ (hdone hends) (.nothing rfl) ⟨rfl, rfl⟩
      rw [WorkflowRecord.advanced, if_pos hends, WorkflowRecord.endsFailed, if_pos hchain]
      rfl
    · have hends : wf.ends false = false := by simpa [WorkflowRecord.ends] using hall
      rw [if_neg hall, wp_bind, wp_updateWorkflow hρ hwf rfl]
      refine wp_mono (Env.every_mono _) _ (enqueueChainStep_adds hρ) fun _ w' h => ?_
      refine .of_setFlow (t := w.clock) (n := w.clock) ?_ ?_ h.1 h.2
      · rw [WorkflowRecord.advanced, hends]
        rfl
      · rw [WorkflowRecord.nextJobs, if_pos hchain, hends]
        rfl

theorem advanceGroup_advances {workflowID : String} {wf : WorkflowRecord} {step : Int} {failed : Bool}
    (hwf : w.store.workflows.lookup workflowID = some wf) (hgroup : wf.type ≠ "chain") :
    wp ρ.env.every (advanceGroup cfg workflowID wf failed)
      (fun _ w' => FlowAdvances cfg workflowID wf step failed w w') w := by
  have hends : wf.ends failed = allFinished wf failed := by simp [WorkflowRecord.ends, hgroup]
  rw [advanceGroup, wp_bind, wp_updateWorkflow hρ hwf rfl, wp_ite]
  split
  · rename_i hall
    rw [hall] at hends
    have hstored : (w.setFlow workflowID (wf.update (counterUpdates wf failed))).store.workflows.lookup
        workflowID = some (wf.update (counterUpdates wf failed)) := AList.lookup_insert _
    rw [finishGroup, wp_bind]
    refine wp_nowFormatted cfg fun t _ => ?_
    simp only
    rw [wp_bind, wp_updateWorkflow hρ (w := (w.setFlow _ _).setClock t) hstored rfl]
    rw [setFlow_setFlow]
    have hrecord : (wf.update (counterUpdates wf failed)).update
        [.state (if 0 < failedAfter wf failed then .failed else .completed),
          .completedAt (cfg.formatTime t)] = wf.advanced failed (cfg.formatTime t) := by
      rw [WorkflowRecord.advanced, if_pos hends, WorkflowRecord.endsFailed, if_neg hgroup]
      simp only [decide_eq_true_eq]
      rfl
    rw [wp_ite]
    split
    · rename_i hbatch
      rw [wp_bind]
      refine wp_mono (Env.every_mono _) _ (fireBatchCallbacks_adds hρ wf _) fun _ w' h => ?_
      refine .of_setFlow (n := t) hrecord ?_ h.1 h.2
      rw [WorkflowRecord.nextJobs, if_neg hgroup, if_pos ⟨hbatch, hends⟩, WorkflowRecord.endsFailed,
        if_neg hgroup]
    · rename_i hbatch
      refine .of_setFlow (n := t) hrecord ?_ (.nothing rfl) ⟨rfl, rfl⟩
      rw [WorkflowRecord.nextJobs, if_neg hgroup, if_neg fun h => hbatch h.1]
  · rename_i hall
    rw [Bool.not_eq_true] at hall
    rw [hall] at hends
    refine .of_setFlow (t := w.clock) (n := w.clock) ?_ ?_ (.nothing rfl) ⟨rfl, rfl⟩
    · rw [WorkflowRecord.advanced, hends]
      rfl
    · rw [WorkflowRecord.nextJobs, if_neg hgroup, if_neg (by simp [hends])]

omit hρ in
theorem withResult_jobs (workflowID : String) (step : Int) (result : Option String) (w : World) :
    (w.withResult workflowID step result).store.jobs = w.store.jobs := by
  cases result with
  | none => rfl
  | some res =>
    rw [World.withResult]
    split <;> rfl

omit hρ in
theorem withResult_workflows (workflowID : String) (step : Int) (result : Option String) (w : World) :
    (w.withResult workflowID step result).store.workflows = w.store.workflows := by
  cases result with
  | none => rfl
  | some res =>
    rw [World.withResult]
    split <;> rfl

omit hρ in
theorem Tells.silent {r : JobRecord} {result : Option String} {failed : Bool}
    (h : w.runningFlow r = none) : Tells cfg r result failed w w := by
  rw [Tells, h]

omit hρ in
theorem Tells.advance {r : JobRecord} {wf : WorkflowRecord} {result : Option String} {failed : Bool}
    {w' : World} (h : w.runningFlow r = some wf)
    (hadv : FlowAdvances cfg r.workflowID wf r.workflowStep failed
      (w.withResult r.workflowID r.workflowStep result) w') : Tells cfg r result failed w w' := by
  rw [Tells, h]
  exact hadv

/-- **The call after an Ack or a Nack** tells the workflow of the job. -/
theorem advanceWorkflowOf_tells {id : String} {r : JobRecord} {st : JobState} {result : Option String}
    (hr : w.store.jobs.lookup id = some r) :
    wp ρ.env.every (advanceWorkflowOf cfg id st result)
      (fun _ w' => Tells cfg r result (decide (st = .discarded ∨ st = .cancelled)) w w') w := by
  rw [advanceWorkflowOf, wp_bind, wp_getJob_some hρ hr]
  simp only [wp_ite, wp_pure]
  split
  · rename_i hid
    exact .silent (by rw [World.runningFlow, if_pos hid])
  · rename_i hid
    rw [wp_bind, advanceWorkflow, wp_bind]
    cases hwf : w.store.workflows.lookup r.workflowID with
    | none =>
      rw [wp_getWorkflowRecord_none hρ hwf]
      exact .silent (by rw [World.runningFlow, if_neg hid, hwf]; rfl)
    | some wf =>
      rw [wp_getWorkflowRecord_some hρ hwf]
      simp only [wp_ite, wp_pure]
      split
      · rename_i hrun
        exact .silent (by simp [World.runningFlow, hid, hwf, Option.filter, hrun])
      · rename_i hrun
        have hflow : w.runningFlow r = some wf := by
          rw [not_not] at hrun
          simp [World.runningFlow, hid, hwf, Option.filter, hrun]
        rw [wp_bind, wp_getJob_some hρ hr]
        simp only
        rw [wp_bind, wp_storeResult hρ, wp_ite]
        have hwf₁ : (w.withResult r.workflowID r.workflowStep result).store.workflows.lookup
            r.workflowID = some wf := by rw [withResult_workflows, hwf]
        split
        · exact wp_mono (Env.every_mono _) _ (advanceChain_advances hρ hwf₁ ‹_›) fun _ _ h =>
            .advance hflow h
        · exact wp_mono (Env.every_mono _) _ (advanceGroup_advances hρ hwf₁ ‹_›) fun _ _ h =>
            .advance hflow h

end
end OjsSqs
