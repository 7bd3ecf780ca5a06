import OjsSqs.Workflows.Counts

/-! # The jobs of a workflow that have ended

The jobs of a workflow that have ended are those it was told of, and they stay
as they are: unless a job is cancelled, which tells no workflow, or one that
has ended is brought back. -/
namespace OjsSqs
open Calls

/-- The workflow was told of the ends `es` of its jobs, and no other has ended. -/
structure EndedJobs (wfID : String) (es : List Finish) (w : World) : Prop where
  lasting : ∀ id r, w.flowJob wfID id = some r → r.expiresAt = ""
  ended : ∀ e ∈ es, ∃ r, w.flowJob wfID e.jobID = some r ∧ r.state = e.state
  others : ∀ id r, w.flowJob wfID id = some r → id ∉ es.map (·.jobID) →
    isTerminalState r.state = false
  once : (es.map (·.jobID)).Nodup

/-- The job was made from the `k`-th definition of the request, with the results
`parents` of the steps before it. -/
def IsStep (cfg : Config) (req : WorkflowRequest) (wfID : String) (parents : List RawMessage)
    (k : Nat) (id : String) (r : JobRecord) : Prop :=
  ∃ step t, req.jobList[k]? = some step ∧
    r.fixed = (newRecord cfg t id (workflowJob wfID step k parents)).fixed

/-- The `k`-th job of the workflow is stored. -/
def HasStep (cfg : Config) (req : WorkflowRequest) (wfID : String) (parents : List RawMessage)
    (k : Nat) (id : String) (w : World) : Prop :=
  ∃ r, w.flowJob wfID id = some r ∧ IsStep cfg req wfID parents k id r

section
variable {cfg : Config} {w w₁ w' : World} {wfID id : String} {r : JobRecord} {e : Finish}
  {es : List Finish} {wf : WorkflowRecord} {req : WorkflowRequest} {parents : List RawMessage} {k : Nat}

theorem IsStep.congr {r' : JobRecord} (h : IsStep cfg req wfID parents k id r)
    (hfixed : r'.fixed = r.fixed) : IsStep cfg req wfID parents k id r' := by
  obtain ⟨step, t, hstep, hr⟩ := h
  exact ⟨step, t, hstep, hfixed.trans hr⟩

theorem HasStep.stays (h : HasStep cfg req wfID parents k id w) (hf : FlowStays wfID w w') :
    HasStep cfg req wfID parents k id w' := by
  obtain ⟨r, hr, hstep⟩ := h
  obtain ⟨r', hr', hfixed, -⟩ := hf.turns id r hr
  exact ⟨r', hr', hstep.congr hfixed⟩

theorem HasStep.moves (h : HasStep cfg req wfID parents k id w)
    (hm : FlowMoves cfg wfID e r wf w w₁ w') : HasStep cfg req wfID parents k id w' := by
  obtain ⟨r₀, hr₀, hstep⟩ := h
  by_cases hid : id = e.jobID
  · subst hid
    rw [hm.stored_job] at hr₀
    obtain rfl := Option.some.inj hr₀
    obtain ⟨r', hr', hfixed, -⟩ := hm.ended
    exact ⟨r', hr', hstep.congr hfixed⟩
  · exact ⟨r₀, hm.keeps hr₀ hid, hstep⟩

theorem IsStep.workflowStep (h : IsStep cfg req wfID parents k id r) :
    r.workflowStep = (k : Int) := by
  obtain ⟨step, t, -, hr⟩ := h
  have hfixed : r.workflowStep = (newRecord cfg t id (workflowJob wfID step k parents)).workflowStep :=
    congrArg (fun r => r.workflowStep) hr
  rw [hfixed, newRecord_workflowStep]
  rfl

theorem Finish.state_terminal (e : Finish) : isTerminalState e.state = true := by
  unfold Finish.state
  split <;> rfl

/-- A new job waits. -/
theorem newRecord_waits {t : Time} {job : Job} :
    isTerminalState (newRecord cfg t id job).state = false := by
  have hstate : (newRecord cfg t id job).state = .available ∨
      (newRecord cfg t id job).state = .scheduled := newRecord_state
  rcases hstate with h | h <;> rw [h] <;> rfl

/-- A job has ended when the workflow was told of it. -/
theorem EndedJobs.terminal_iff (h : EndedJobs wfID es w) (hr : w.flowJob wfID id = some r) :
    isTerminalState r.state = true ↔ id ∈ es.map (·.jobID) := by
  constructor
  · intro hterm
    by_contra hid
    rw [h.others id r hr hid] at hterm
    cases hterm
  · intro hid
    obtain ⟨e, he, rfl⟩ := List.mem_map.mp hid
    obtain ⟨r', hr', hs⟩ := h.ended e he
    rw [hr] at hr'
    obtain rfl := Option.some.inj hr'
    rw [hs]
    exact e.state_terminal

/-- **A step that leaves the workflow alone.** -/
theorem EndedJobs.stays (h : EndedJobs wfID es w) (hf : FlowStays wfID w w')
    (hD : FlowUndisturbed wfID w w')
    (hrest : ¬ w.flowRuns wfID → ∀ id r, w.flowJob wfID id = some r → id ∈ es.map (·.jobID)) :
    EndedJobs wfID es w' where
  lasting id r' hr' := by
    obtain ⟨r, hr, hfixed, -⟩ := hf.was hr'
    exact (JobRecord.fixed_expiresAt hfixed).trans (h.lasting id r hr)
  ended e he := by
    obtain ⟨r, hr, hs⟩ := h.ended e he
    obtain ⟨r', hr', -, -⟩ := hf.turns e.jobID r hr
    have hterm : isTerminalState r.state = true := by
      rw [hs]
      exact e.state_terminal
    exact ⟨r', hr', (hD.ended _ r r' hr hterm hr').trans hs⟩
  others id r' hr' hid := by
    obtain ⟨r, hr, -, ht⟩ := hf.was hr'
    have hs := h.others id r hr hid
    by_cases hrun : w.flowRuns wfID
    · rcases ht (h.lasting id r hr) hrun hs with ht | ht
      · exact ht
      · exact absurd ht (hD.uncancelled id r r' hr hs hr')
    · exact absurd (hrest hrun id r hr) hid
  once := h.once

/-- A job ends that had not ended. -/
theorem EndedJobs.fresh (h : EndedJobs wfID es w) (hm : FlowMoves cfg wfID e r wf w w₁ w') :
    e.jobID ∉ es.map (·.jobID) := by
  intro hid
  have hterm := (h.terminal_iff hm.stored_job).mpr hid
  rw [hm.closes.active] at hterm
  cases hterm

/-- **A step that ends a job of the workflow.** -/
theorem EndedJobs.moves (h : EndedJobs wfID es w) (hm : FlowMoves cfg wfID e r wf w w₁ w') :
    EndedJobs wfID (es ++ [e]) w' where
  lasting id r' hr' := by
    rcases hm.was hr' with ⟨rfl, -, hfixed⟩ | ⟨-, hr⟩ | ⟨-, -, job, hjob, t, -, rfl⟩
    · exact (JobRecord.fixed_expiresAt hfixed).trans (h.lasting _ r hm.stored_job)
    · exact h.lasting id r' hr
    · rw [newRecord_expiresAt]
      exact nextJobs_expiresAt hjob
  ended e' he' := by
    rcases List.mem_append.mp he' with he' | he'
    · obtain ⟨r', hr', hs⟩ := h.ended e' he'
      refine ⟨r', hm.keeps hr' fun hid => h.fresh hm ?_, hs⟩
      exact hid ▸ List.mem_map_of_mem he'
    · obtain rfl := List.mem_singleton.mp he'
      obtain ⟨r', hr', -, hs⟩ := hm.ended
      exact ⟨r', hr', hs⟩
  others id r' hr' hid := by
    rw [List.map_append, List.mem_append, not_or] at hid
    rcases hm.was hr' with ⟨rfl, -⟩ | ⟨-, hr⟩ | ⟨-, -, job, -, t, -, rfl⟩
    · exact absurd (List.mem_singleton_self _) hid.2
    · exact h.others id r' hr hid.1
    · exact newRecord_waits
  once := by
    rw [List.map_append, List.nodup_append]
    refine ⟨h.once, List.nodup_singleton _, fun a ha b hb hab => h.fresh hm ?_⟩
    obtain rfl := List.mem_singleton.mp hb
    have hab : a = e.jobID := hab
    rw [← hab]
    exact ha

/-! ## The first jobs -/

/-- What is stored under an identifier after a creation: a new job of a step, or
what was stored before. -/
theorem Created.was (h : Created cfg req wfID w w')
    (hnew : ∀ id, w.flowJob wfID id = none) (hr : w'.flowJob wfID id = some r) :
    ∃ job ∈ stepJobs wfID 0 req.firstSteps, ∃ t, r = newRecord cfg t id job := by
  obtain ⟨hr, hwf⟩ := flowJob_eq_some.mp hr
  rcases h.jobs.cases id with hsame | ⟨-, job, hjob, t, hstored⟩
  · rw [hsame] at hr
    exact absurd hwf (flowJob_eq_none.mp (hnew id) r hr)
  · rw [hstored] at hr
    exact ⟨job, hjob, t, (Option.some.inj hr).symm⟩

theorem Created.endedJobs (h : Created cfg req wfID w w')
    (hnew : ∀ id, w.flowJob wfID id = none) : EndedJobs wfID [] w' where
  lasting id r hr := by
    obtain ⟨job, hjob, t, rfl⟩ := h.was hnew hr
    obtain ⟨p, -, rfl⟩ := List.mem_map.mp hjob
    exact newRecord_expiresAt
  ended e he := absurd he List.not_mem_nil
  others id r hr _ := by
    obtain ⟨job, hjob, t, rfl⟩ := h.was hnew hr
    exact newRecord_waits
  once := List.nodup_nil

theorem stepJobs_getElem? {steps : List WorkflowJobRequest} :
    (stepJobs wfID 0 steps)[k]? = steps[k]?.map fun step => workflowJob wfID step k [] := by
  rw [stepJobs, List.getElem?_map, List.getElem?_zipIdx, Option.map_map, Nat.zero_add]
  rfl

theorem firstSteps_getElem? {step : WorkflowJobRequest}
    (h : req.firstSteps[k]? = some step) : req.jobList[k]? = some step := by
  rw [WorkflowRequest.firstSteps] at h
  split at h
  · rw [List.getElem?_take] at h
    split at h
    · exact h
    · cases h
  · exact h

/-- The identifiers of the first jobs. -/
theorem Created.members (h : Created cfg req wfID w w')
    (hnew : ∀ id, w.flowJob wfID id = none) :
    ∃ ids : List String, ids.Nodup ∧ ids.length = req.firstSteps.length ∧
      (∀ id, (w'.flowJob wfID id).isSome ↔ id ∈ ids) ∧
      ∀ k id, ids[k]? = some id → HasStep cfg req wfID [] k id w' := by
  obtain ⟨new, hspecs, hnodup, hstored, hold⟩ := h.jobs
  have hlength : new.length = req.firstSteps.length := by
    have h := congrArg List.length hspecs
    simpa [stepJobs] using h
  have hjob : ∀ k p, new[k]? = some p → HasStep cfg req wfID [] k p.1 w' := by
    intro k p hk
    obtain ⟨-, t, hr⟩ := hstored p (List.mem_of_getElem? hk)
    have hspec : (stepJobs wfID 0 req.firstSteps)[k]? = some p.2 := by
      rw [← hspecs, List.getElem?_map, hk]
      rfl
    rw [stepJobs_getElem?] at hspec
    obtain ⟨step, hstep, hjob⟩ := Option.map_eq_some_iff.mp hspec
    refine ⟨_, flowJob_eq_some.mpr ⟨hr, ?_⟩, step, t, firstSteps_getElem? hstep, ?_⟩
    · rw [newRecord_workflowID, ← hjob]
      rfl
    · rw [hjob]
  refine ⟨new.map Prod.fst, hnodup, by rw [List.length_map, hlength], fun id => ⟨fun hsome => ?_,
    fun hid => ?_⟩, fun k id => ?_⟩
  · by_contra hid
    obtain ⟨r, hr⟩ := Option.isSome_iff_exists.mp hsome
    rw [flowJob_eq_some, hold id hid] at hr
    exact flowJob_eq_none.mp (hnew id) r hr.1 hr.2
  · obtain ⟨p, hp, rfl⟩ := List.mem_map.mp hid
    obtain ⟨k, hk⟩ := List.mem_iff_getElem?.mp hp
    obtain ⟨r, hr, -⟩ := hjob k p hk
    rw [hr]
    rfl
  · intro hk
    rw [List.getElem?_map] at hk
    obtain ⟨p, hp, rfl⟩ := Option.map_eq_some_iff.mp hk
    exact hjob k p hp

end
end OjsSqs
