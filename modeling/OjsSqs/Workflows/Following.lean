import OjsSqs.Calls.Path
import OjsSqs.Failures.Counting
import OjsSqs.Workflows.Started
import OjsSqs.Workflows.Steps

/-! # A workflow in a run

For one workflow a step does nothing, or it ends a job of the running workflow
and the workflow moves on. The ends it is told of are noted along the run, and
what both kinds of steps keep holds in every state of the run. -/
namespace OjsSqs
open Calls

/-- The workflow is stored, and running. -/
def World.flowRuns (wfID : String) (w : World) : Prop :=
  ∃ wf, w.store.workflows.lookup wfID = some wf ∧ wf.state = .running

theorem flowRuns_iff {wfID : String} {w : World} : w.flowRuns wfID ↔
    (w.store.workflows.lookup wfID).any (fun wf => wf.state = .running) = true := by
  rw [World.flowRuns, Option.any_eq_true]
  simp only [decide_eq_true_eq]

instance (wfID : String) (w : World) : Decidable (w.flowRuns wfID) :=
  decidable_of_iff _ flowRuns_iff.symm

/-- The finish the running workflow is told of in a step. -/
def flowNotes (wfID : String) (w : World) (l : SystemLabel) : List Finish :=
  l.finish.toList.filter fun e => (w.flowJob wfID e.jobID).isSome && w.flowRuns wfID

/-- The step leaves the workflow alone. A job of a workflow that no longer runs
may end. -/
structure FlowStays (wfID : String) (w w' : World) : Prop where
  aside : FlowAside wfID w w'
  turns : ∀ id r, w.flowJob wfID id = some r → ∃ r', w'.flowJob wfID id = some r' ∧
    r'.fixed = r.fixed ∧ (r.expiresAt = "" → w.flowRuns wfID → isTerminalState r.state = false →
      isTerminalState r'.state = false ∨ r'.state = .cancelled)

/-- The step ends a job of the workflow, and the workflow moves on. -/
structure FlowMoves (cfg : Config) (wfID : String) (e : Finish) (r : JobRecord) (wf : WorkflowRecord)
    (w w₁ w' : World) : Prop where
  closes : Closes e r w w₁
  workflowID : r.workflowID = wfID
  stored : w.store.workflows.lookup wfID = some wf
  running : wf.state = .running
  advances : FlowAdvances cfg wfID wf r.workflowStep e.failed
    (w₁.withResult wfID r.workflowStep e.result) w'

/-- No job of the workflow is cancelled, and none that has ended is brought back. -/
structure FlowUndisturbed (wfID : String) (w w' : World) : Prop where
  uncancelled : ∀ id r r', w.flowJob wfID id = some r → isTerminalState r.state = false →
    w'.flowJob wfID id = some r' → r'.state ≠ .cancelled
  ended : ∀ id r r', w.flowJob wfID id = some r → isTerminalState r.state = true →
    w'.flowJob wfID id = some r' → r'.state = r.state

/-- The same of the jobs that are stored. -/
def undisturbedIn (wfID : String) (w w' : World) : Bool :=
  w.store.jobs.keys.all fun id =>
    match w.flowJob wfID id, w'.flowJob wfID id with
    | some r, some r' =>
      if isTerminalState r.state then decide (r'.state = r.state) else decide (r'.state ≠ .cancelled)
    | _, _ => true

theorem undisturbed_iff {wfID : String} {w w' : World} :
    FlowUndisturbed wfID w w' ↔ undisturbedIn wfID w w' = true := by
  rw [undisturbedIn, List.all_eq_true]
  constructor
  · intro h id _
    cases hr : w.flowJob wfID id with
    | none => rfl
    | some r =>
      cases hr' : w'.flowJob wfID id with
      | none => rfl
      | some r' =>
        simp only
        split
        · rename_i hterm
          exact decide_eq_true (h.ended id r r' hr hterm hr')
        · rename_i hterm
          exact decide_eq_true (h.uncancelled id r r' hr (Bool.eq_false_iff.mpr hterm) hr')
  · intro h
    constructor
    · intro id r r' hr hterm hr'
      have hid := h id (mem_keys_of_flowJob hr)
      rw [hr, hr'] at hid
      simp only [hterm] at hid
      exact of_decide_eq_true hid
    · intro id r r' hr hterm hr'
      have hid := h id (mem_keys_of_flowJob hr)
      rw [hr, hr'] at hid
      simp only [hterm, if_true] at hid
      exact of_decide_eq_true hid

instance (wfID : String) (w w' : World) : Decidable (FlowUndisturbed wfID w w') :=
  decidable_of_iff _ undisturbed_iff.symm

section
variable {cfg : Config} {lib : CronLib} {ρ : Rules} {w w₁ w' : World} {l : SystemLabel}
  {wfID id : String} {r : JobRecord} {e : Finish}

/-- Only an active job of a running workflow is noted. -/
theorem flowNotes_eq_nil (h : ∀ e, l.finish = some e → ∀ r, w.flowJob wfID e.jobID = some r →
    ¬ w.flowRuns wfID) : flowNotes wfID w l = [] := by
  rw [flowNotes, List.filter_eq_nil_iff]
  intro e he hnote
  obtain ⟨hjob, hrun⟩ := Bool.and_eq_true_iff.mp hnote
  obtain ⟨r, hr⟩ := Option.isSome_iff_exists.mp hjob
  exact h e (Option.mem_toList.mp he) r hr (of_decide_eq_true hrun)

theorem FlowMoves.stored_job {wf : WorkflowRecord} (h : FlowMoves cfg wfID e r wf w w₁ w') :
    w.flowJob wfID e.jobID = some r := flowJob_eq_some.mpr ⟨h.closes.stored, h.workflowID⟩

theorem FlowMoves.runs {wf : WorkflowRecord} (h : FlowMoves cfg wfID e r wf w w₁ w') :
    w.flowRuns wfID := ⟨wf, h.stored, h.running⟩

theorem FlowMoves.notes {wf : WorkflowRecord} (h : FlowMoves cfg wfID e r wf w w₁ w')
    (hl : l.finish = some e) : flowNotes wfID w l = [e] := by
  rw [flowNotes, hl, Option.toList_some, List.filter_cons_of_pos, List.filter_nil]
  rw [h.stored_job, decide_eq_true h.runs]
  rfl

theorem Untold.flowStays (h : Untold wfID w w') : FlowStays wfID w w' where
  aside := h.aside
  turns id r hr := by
    obtain ⟨hr, hid⟩ := flowJob_eq_some.mp hr
    obtain ⟨r', hr', hfixed, ht⟩ := h.turns id r hr
    exact ⟨r', flowJob_eq_some.mpr ⟨hr', (JobRecord.fixed_workflowID hfixed).trans hid⟩, hfixed,
      fun hx _ => ht hx⟩

/-- The jobs that follow belong to the workflow, or to none. -/
theorem nextJobs_workflowID {wf : WorkflowRecord} {step : Int} {failed : Bool}
    {results : List (Int × String)} {job : Job}
    (h : job ∈ wf.nextJobs wfID step failed results) : job.workflowID = wfID ∨ job.workflowID = "" := by
  rw [WorkflowRecord.nextJobs] at h
  split at h
  · split at h
    · cases h
    · rw [WorkflowRecord.nextSteps] at h
      split at h
      · cases h
      · obtain ⟨req, -, rfl⟩ := List.mem_map.mp h
        exact .inl rfl
  · split at h
    · rw [WorkflowRecord.callbackJobs] at h
      split at h
      · cases h
      · obtain ⟨cb, -, rfl⟩ := List.mem_map.mp h
        exact .inr rfl
    · cases h

theorem withResult_lookup {step : Int} {result : Option String} {other : String} (i : Int)
    (h : other ≠ wfID) : (w.withResult other step result).store.workflowResults.lookup (wfID, i) =
      w.store.workflowResults.lookup (wfID, i) := by
  cases result with
  | none => rfl
  | some res =>
    rw [World.withResult]
    split
    · rfl
    · exact AList.lookup_insert_ne fun he => h (congrArg Prod.fst he).symm

/-- A job of another workflow ends, or of one that does not run. -/
theorem Closes.flowStays (h : Closes e r w w₁) (hr : r.workflowID = wfID → ¬ w.flowRuns wfID) :
    FlowStays wfID w w₁ where
  aside := by
    refine ⟨by rw [h.flows.workflows], fun i => by rw [h.flows.results], fun id hn => ?_⟩
    rw [flowJob_eq_none] at hn ⊢
    intro r₁ hr₁
    by_cases hid : id = e.jobID
    · subst hid
      obtain ⟨r', hr', hfixed, -⟩ := h.closed
      rw [hr'] at hr₁
      obtain rfl := Option.some.inj hr₁
      rw [JobRecord.fixed_workflowID hfixed]
      exact hn r h.stored
    · exact hn r₁ ((h.others id hid).symm.trans hr₁)
  turns id r₀ hr₀ := by
    obtain ⟨hr₀, hwf⟩ := flowJob_eq_some.mp hr₀
    by_cases hid : id = e.jobID
    · subst hid
      rw [h.stored] at hr₀
      obtain rfl := Option.some.inj hr₀
      obtain ⟨r', hr', hfixed, -⟩ := h.closed
      exact ⟨r', flowJob_eq_some.mpr ⟨hr', (JobRecord.fixed_workflowID hfixed).trans hwf⟩, hfixed,
        fun _ hrun => absurd hrun (hr hwf)⟩
    · exact ⟨r₀, flowJob_eq_some.mpr ⟨(h.others id hid).trans hr₀, hwf⟩, rfl,
        fun _ _ hterm => .inl hterm⟩

/-- Jobs that are not the workflow's are added. -/
theorem FlowStays.adds {specs : List Job} (h : FlowStays wfID w w₁) (hadd : AddsJobs cfg specs w₁ w')
    (haside : FlowAside wfID w₁ w') : FlowStays wfID w w' where
  aside := h.aside.trans haside
  turns id r hr := by
    obtain ⟨r', hr', hfixed, ht⟩ := h.turns id r hr
    obtain ⟨hr', hwf⟩ := flowJob_eq_some.mp hr'
    exact ⟨r', flowJob_eq_some.mpr ⟨hadd.kept hr', hwf⟩, hfixed, ht⟩

/-- Another workflow is told of the end of a job. -/
theorem FlowAdvances.flowAside {other : String} {wf : WorkflowRecord} {step : Int} {failed : Bool}
    {result : Option String} (h : FlowAdvances cfg other wf step failed
      (w.withResult other step result) w') (hne : other ≠ wfID) (hid : wfID ≠ "") :
    FlowAside wfID w w' := by
  have hadds := h.jobs.congr (withResult_jobs other step result w).symm
  refine ⟨?_, fun i => ?_, fun id hn => ?_⟩
  · rw [h.others _ hne.symm, withResult_workflows]
  · rw [h.results]
    exact withResult_lookup i hne
  · refine hadds.noneNew (fun job hjob => ?_) hn
    rcases nextJobs_workflowID hjob with hj | hj <;> rw [hj]
    · exact hne
    · exact fun he => hid he.symm

/-- **The end of a job**, as the workflow sees it. -/
theorem Ends.flowStep (h : Ends cfg e w w') (hid : wfID ≠ "") :
    FlowStays wfID w w' ∧ (∀ r, w.flowJob wfID e.jobID = some r → ¬ w.flowRuns wfID) ∨
      ∃ r wf w₁, FlowMoves cfg wfID e r wf w w₁ w' := by
  obtain ⟨r, w₁, hcloses, htells⟩ := h
  rw [Tells, World.runningFlow, hcloses.flows.workflows] at htells
  by_cases hwf : r.workflowID = wfID
  · subst hwf
    rw [if_neg hid] at htells
    cases hf : (w.store.workflows.lookup r.workflowID).filter (·.state = .running) with
    | none =>
      rw [hf] at htells
      obtain rfl : w' = w₁ := htells
      have hnot : ¬ w.flowRuns r.workflowID := by
        rintro ⟨wf, hwf, hrun⟩
        exact Option.filter_eq_none_iff.mp hf wf hwf (decide_eq_true hrun)
      exact .inl ⟨hcloses.flowStays fun _ => hnot, fun _ _ => hnot⟩
    | some wf =>
      rw [hf] at htells
      obtain ⟨hwf, hrun⟩ := Option.filter_eq_some_iff.mp hf
      exact .inr ⟨r, wf, w₁, hcloses, rfl, hwf, of_decide_eq_true hrun, htells⟩
  · have hstays : FlowStays wfID w w₁ := hcloses.flowStays fun h => absurd h hwf
    have hnotFlow : ∀ r, w.flowJob wfID e.jobID = some r → ¬ w.flowRuns wfID := by
      intro r' hr'
      obtain ⟨hr', hid'⟩ := flowJob_eq_some.mp hr'
      rw [hcloses.stored] at hr'
      obtain rfl := Option.some.inj hr'
      exact absurd hid' hwf
    split at htells
    · obtain rfl : w' = w₁ := htells
      exact .inl ⟨hstays, hnotFlow⟩
    · have hadv : FlowAdvances cfg r.workflowID _ r.workflowStep e.failed
          (w₁.withResult r.workflowID r.workflowStep e.result) w' := htells
      have hadds := hadv.jobs.congr (withResult_jobs ..).symm
      exact .inl ⟨hstays.adds hadds (hadv.flowAside hwf hid), hnotFlow⟩

/-- **One step**, as the workflow sees it. -/
theorem step_flow (hρ : ρ.faults = false) (hg : Agrees cfg w) (hid : wfID ≠ "")
    (hwf : wfID ∈ w'.store.workflows → wfID ∈ w.store.workflows) (hs : SystemStep cfg lib ρ w l w')
    (hl : l.leavesFlow wfID = true) :
    FlowStays wfID w w' ∧ flowNotes wfID w l = [] ∨
      ∃ e r wf w₁, FlowMoves cfg wfID e r wf w w₁ w' ∧ flowNotes wfID w l = [e] := by
  cases he : l.finish with
  | none =>
    refine .inl ⟨(step_untold hρ hg hid hwf hs hl he).flowStays, flowNotes_eq_nil fun e h => ?_⟩
    rw [he] at h
    cases h
  | some e =>
    rcases (step_finish hρ hs he).flowStep hid with ⟨hstays, hnot⟩ | ⟨r, wf, w₁, h⟩
    · refine .inl ⟨hstays, flowNotes_eq_nil fun e' h => ?_⟩
      rw [he] at h
      obtain rfl := Option.some.inj h
      exact hnot
    · exact .inr ⟨e, r, wf, w₁, h, h.notes he⟩

/-! ## The jobs that follow the end of a job -/

theorem nextJobs_expiresAt {wf : WorkflowRecord} {step : Int} {failed : Bool}
    {results : List (Int × String)} {job : Job}
    (h : job ∈ wf.nextJobs wfID step failed results) : job.expiresAt = "" := by
  rw [WorkflowRecord.nextJobs] at h
  split at h
  · split at h
    · cases h
    · rw [WorkflowRecord.nextSteps] at h
      split at h
      · cases h
      · obtain ⟨req, -, rfl⟩ := List.mem_map.mp h
        rfl
  · split at h
    · rw [WorkflowRecord.callbackJobs] at h
      split at h
      · cases h
      · obtain ⟨cb, -, rfl⟩ := List.mem_map.mp h
        rfl
    · cases h

variable {wf : WorkflowRecord}

/-- The jobs that are pushed when the job has ended. -/
def FlowMoves.specs (_ : FlowMoves cfg wfID e r wf w w₁ w') : List Job :=
  wf.nextJobs wfID r.workflowStep e.failed
    ((w₁.withResult wfID r.workflowStep e.result).store.resultsOf wfID)

theorem FlowMoves.adds (h : FlowMoves cfg wfID e r wf w w₁ w') : AddsJobs cfg h.specs w₁ w' :=
  h.advances.jobs.congr (withResult_jobs ..).symm

/-- A job of the workflow afterwards: the ended one, one that was there, or a new one. -/
theorem FlowMoves.was (h : FlowMoves cfg wfID e r wf w w₁ w') {r' : JobRecord}
    (hr' : w'.flowJob wfID id = some r') :
    id = e.jobID ∧ r'.state = e.state ∧ r'.fixed = r.fixed ∨
      id ≠ e.jobID ∧ w.flowJob wfID id = some r' ∨
      id ≠ e.jobID ∧ w.store.jobs.lookup id = none ∧
        ∃ job ∈ h.specs, ∃ t, job.workflowID = wfID ∧ r' = newRecord cfg t id job := by
  obtain ⟨hr', hwf⟩ := flowJob_eq_some.mp hr'
  obtain ⟨r₁, hr₁, hfixed, hstate⟩ := h.closes.closed
  by_cases hid : id = e.jobID
  · subst hid
    rw [h.adds.kept hr₁] at hr'
    obtain rfl := Option.some.inj hr'
    exact .inl ⟨rfl, hstate, hfixed⟩
  · rcases h.adds.cases id with hsame | ⟨hnone, job, hjob, t, hnew⟩
    · rw [hsame, h.closes.others id hid] at hr'
      exact .inr (.inl ⟨hid, flowJob_eq_some.mpr ⟨hr', hwf⟩⟩)
    · rw [hnew] at hr'
      obtain rfl := Option.some.inj hr'
      rw [newRecord_workflowID] at hwf
      rw [h.closes.others id hid] at hnone
      exact .inr (.inr ⟨hid, hnone, job, hjob, t, hwf, rfl⟩)

/-- The jobs that were there are the same, but for the ended one. -/
theorem FlowMoves.keeps (h : FlowMoves cfg wfID e r wf w w₁ w') {r' : JobRecord}
    (hr' : w.flowJob wfID id = some r') (hid : id ≠ e.jobID) : w'.flowJob wfID id = some r' := by
  obtain ⟨hr', hwf⟩ := flowJob_eq_some.mp hr'
  exact flowJob_eq_some.mpr ⟨h.adds.kept ((h.closes.others id hid).trans hr'), hwf⟩

theorem FlowMoves.ended (h : FlowMoves cfg wfID e r wf w w₁ w') :
    ∃ r', w'.flowJob wfID e.jobID = some r' ∧ r'.fixed = r.fixed ∧ r'.state = e.state := by
  obtain ⟨r₁, hr₁, hfixed, hstate⟩ := h.closes.closed
  refine ⟨r₁, flowJob_eq_some.mpr ⟨h.adds.kept hr₁, ?_⟩, hfixed, hstate⟩
  rw [JobRecord.fixed_workflowID hfixed]
  exact h.workflowID

/-- A job of the workflow after a step that leaves the workflow alone. -/
theorem FlowStays.was (h : FlowStays wfID w w') {r' : JobRecord} (hr' : w'.flowJob wfID id = some r') :
    ∃ r, w.flowJob wfID id = some r ∧ r'.fixed = r.fixed ∧ (r.expiresAt = "" → w.flowRuns wfID →
      isTerminalState r.state = false → isTerminalState r'.state = false ∨ r'.state = .cancelled) := by
  cases hr : w.flowJob wfID id with
  | none =>
    rw [h.aside.noneNew id hr] at hr'
    cases hr'
  | some r =>
    obtain ⟨r₂, hr₂, hfixed, ht⟩ := h.turns id r hr
    rw [hr'] at hr₂
    obtain rfl := Option.some.inj hr₂
    exact ⟨r, rfl, hfixed, ht⟩

/-! ## Runs -/

/-- The steps of a run in which no client meddles with the workflow, and which
change the state as `D` says. -/
def FlowStep (cfg : Config) (lib : CronLib) (ρ : Rules) (wfID : String) (D : World → World → Prop) :
    World → SystemLabel → World → Prop :=
  fun w l w' => SystemStep cfg lib ρ w l w' ∧ l.leavesFlow wfID = true ∧ D w w'

/-- The workflow was created in a run in which no client had used its name before. -/
def Creates (cfg : Config) (lib : CronLib) (ρ : Rules) (req : WorkflowRequest) (flow : Workflow)
    (w₁ : World) : Prop :=
  ∃ t ls w, Path (FlowStep cfg lib ρ flow.id fun _ _ => True) (.start t) ls w ∧
    SystemStep cfg lib ρ w (.op (.createWorkflow req) (.ok flow)) w₁

/-- Nothing is stored under the name of the workflow. -/
structure Unnamed (wfID : String) (w : World) : Prop where
  jobs : ∀ id, w.flowJob wfID id = none
  results : ∀ i, w.store.workflowResults.lookup (wfID, i) = none

theorem FlowStays.stored (h : FlowStays wfID w w') :
    wfID ∈ w'.store.workflows ↔ wfID ∈ w.store.workflows := by
  rw [← AList.lookup_isSome, ← AList.lookup_isSome, h.aside.record]

theorem FlowMoves.stored_flow {wf : WorkflowRecord} (h : FlowMoves cfg wfID e r wf w w₁ w') :
    wfID ∈ w.store.workflows ∧ wfID ∈ w'.store.workflows := by
  obtain ⟨now, hrecord⟩ := h.advances.record
  rw [← AList.lookup_isSome, ← AList.lookup_isSome, h.stored, hrecord]
  exact ⟨rfl, rfl⟩

/-- **A name no workflow has is not in use.** -/
theorem run_unnamed (hρ : ρ.faults = false) (hid : wfID ≠ "") {t : Time} {ls : List SystemLabel}
    (h : Path (FlowStep cfg lib ρ wfID fun _ _ => True) (.start t) ls w)
    (hnew : wfID ∉ w.store.workflows) : Unnamed wfID w := by
  have hall : Agrees cfg w ∧ (wfID ∉ w.store.workflows → Unnamed wfID w) := by
    refine h.keeps (I := fun w => Agrees cfg w ∧ (wfID ∉ w.store.workflows → Unnamed wfID w))
      ⟨good_start t, fun _ => ⟨fun _ => rfl, fun _ => rfl⟩⟩ ?_
    intro w l w' hI hstep
    obtain ⟨hg, hI⟩ := hI
    obtain ⟨hs, hl, -⟩ := hstep
    refine ⟨step_agrees hρ hg hs, fun hnew => ?_⟩
    rcases step_flow hρ hg hid (fun h => absurd h hnew) hs hl with ⟨hf, -⟩ | ⟨e, r, wf, w₁, hm, -⟩
    · have hold := hI fun h => hnew (hf.stored.mpr h)
      exact ⟨fun id => hf.aside.noneNew id (hold.jobs id),
        fun i => (hf.aside.results i).trans (hold.results i)⟩
    · exact absurd hm.stored_flow.2 hnew
  exact hall.2 hnew

/-- **The rule for runs.** What holds of a new workflow, and goes on to hold with
each step that leaves it alone and with each end of one of its jobs, holds. -/
theorem flow_follows (hρ : ρ.faults = false) {D : World → World → Prop}
    {I : List Finish → World → Prop} {ls : List SystemLabel} {es : List Finish} (hid : wfID ≠ "")
    (hg : Agrees cfg w₁) (hwf : wfID ∈ w₁.store.workflows) (h₀ : I [] w₁)
    (hstays : ∀ es w w', Agrees cfg w → I es w → FlowStays wfID w w' → D w w' → I es w')
    (hmoves : ∀ es e r wf w w₁ w', Agrees cfg w → I es w → FlowMoves cfg wfID e r wf w w₁ w' →
      D w w' → I (es ++ [e]) w')
    (h : Path (Noting (flowNotes wfID) (FlowStep cfg lib ρ wfID D)) (w₁, []) ls (w', es)) :
    Agrees cfg w' ∧ wfID ∈ w'.store.workflows ∧ I es w' := by
  refine h.keeps (I := fun x => Agrees cfg x.1 ∧ wfID ∈ x.1.store.workflows ∧ I x.2 x.1)
    ⟨hg, hwf, h₀⟩ ?_
  intro x l x' hI hstep
  obtain ⟨w, es⟩ := x
  obtain ⟨w', es'⟩ := x'
  obtain ⟨hg, hwf, hI⟩ := hI
  obtain ⟨⟨hs, hl, hD⟩, hes⟩ := hstep
  have hes : es' = es ++ flowNotes wfID w l := hes
  have hg' := step_agrees hρ hg hs
  rcases step_flow hρ hg hid (fun _ => hwf) hs hl with ⟨hf, hnotes⟩ | ⟨e, r, wf, w₁, hm, hnotes⟩
  · rw [hnotes, List.append_nil] at hes
    subst hes
    exact ⟨hg', hf.stored.mpr hwf, hstays es' w w' hg hI hf hD⟩
  · rw [hnotes] at hes
    subst hes
    exact ⟨hg', hm.stored_flow.2, hmoves es e r wf w w₁ w' hg hI hm hD⟩

end

/-! ## Scripts -/

namespace SystemAct

/-- The labels of a list of steps that leave the workflow to its jobs, with the
state after them and the notes. -/
def follow (cfg : Config) (lib : CronLib) (ρ : Rules) (wfID : String) :
    List SystemAct → World × List Finish → Option (List SystemLabel × World × List Finish)
  | [], x => some ([], x)
  | a :: as, x => match a.run cfg lib ρ x.1 with
    | some (l, w') =>
      if l.leavesFlow wfID = true ∧ FlowUndisturbed wfID x.1 w' then
        (follow cfg lib ρ wfID as (w', x.2 ++ flowNotes wfID x.1 l)).map fun y => (l :: y.1, y.2)
      else none
    | none => none

theorem follow_path {cfg : Config} {lib : CronLib} {ρ : Rules} {wfID : String} {as : List SystemAct}
    {x x' : World × List Finish} {ls : List SystemLabel}
    (h : follow cfg lib ρ wfID as x = some (ls, x')) :
    Path (Noting (flowNotes wfID) (FlowStep cfg lib ρ wfID (FlowUndisturbed wfID))) x ls x' := by
  induction as generalizing x ls with
  | nil =>
    cases h
    exact .nil
  | cons a as ih =>
    simp only [follow] at h
    split at h
    · rename_i l w' hr
      split at h
      · rename_i hok
        obtain ⟨⟨ls', x''⟩, hf, h⟩ := Option.map_eq_some_iff.mp h
        cases h
        have hfirst : Path (Noting (flowNotes wfID) (FlowStep cfg lib ρ wfID (FlowUndisturbed wfID)))
            x [l] (w', x.2 ++ flowNotes wfID x.1 l) := .single ⟨⟨run_step hr, hok.1, hok.2⟩, rfl⟩
        exact hfirst.append (ih hf)
      · cases h
    · cases h

/-- What the steps note. -/
def notes (cfg : Config) (lib : CronLib) (ρ : Rules) (wfID : String) :
    List SystemAct → World → List Finish
  | [], _ => []
  | a :: as, w => match a.run cfg lib ρ w with
    | some (l, w') => flowNotes wfID w l ++ notes cfg lib ρ wfID as w'
    | none => []

theorem play_noted {cfg : Config} {lib : CronLib} {ρ : Rules} {wfID : String}
    {P : World → SystemLabel → Prop} {as : List SystemAct} {ls : List SystemLabel} {w w' : World}
    (h : play cfg lib ρ as w = some (ls, w'))
    (hok : ∀ x ∈ as, ∀ w l w', x.run cfg lib ρ w = some (l, w') → P w l) (es : List Finish) :
    Path (Noting (flowNotes wfID) (Meeting P (SystemStep cfg lib ρ))) (w, es) ls
      (w', es ++ notes cfg lib ρ wfID as w) := by
  induction as generalizing w ls es with
  | nil =>
    cases h
    rw [notes, List.append_nil]
    exact .nil
  | cons a as ih =>
    simp only [play] at h
    split at h
    · rename_i l w₁ hr
      obtain ⟨⟨ls₁, w₂⟩, hp, h⟩ := Option.map_eq_some_iff.mp h
      cases h
      have hfirst : Path (Noting (flowNotes wfID) (Meeting P (SystemStep cfg lib ρ))) (w, es) [l]
          (w₁, es ++ flowNotes wfID w l) :=
        .single ⟨⟨hok a List.mem_cons_self w l w₁ hr, run_step hr⟩, rfl⟩
      rw [notes, hr, ← List.append_assoc]
      exact hfirst.append (ih hp (fun y hy => hok y (List.mem_cons_of_mem _ hy)) _)
    · cases h

end SystemAct

/-- Whether the run disturbs the workflow may be left open. -/
theorem flow_path_any {cfg : Config} {lib : CronLib} {ρ : Rules} {wfID : String}
    {D : World → World → Prop} {x x' : World × List Finish} {ls : List SystemLabel}
    (h : Path (Noting (flowNotes wfID) (FlowStep cfg lib ρ wfID D)) x ls x') :
    Path (Noting (flowNotes wfID) (FlowStep cfg lib ρ wfID fun _ _ => True)) x ls x' :=
  h.mono fun _ _ _ hs => ⟨⟨hs.1.1, hs.1.2.1, trivial⟩, hs.2⟩

/-- The identifier of the workflow a step has created. -/
def SystemLabel.flowID : SystemLabel → String
  | .op (.createWorkflow _) (.ok flow) => flow.id
  | _ => ""

theorem creates_of_run {cfg : Config} {lib : CronLib} {ρ : Rules} {t : Time} {req : WorkflowRequest}
    {choices : List Choice} {l : SystemLabel} {w₁ : World} (hid : l.flowID ≠ "")
    (h : (SystemAct.op (.createWorkflow req) choices).run cfg lib ρ (.start t) = some (l, w₁)) :
    ∃ flow, flow.id = l.flowID ∧ Creates cfg lib ρ req flow w₁ := by
  have hstep := SystemAct.run_step h
  obtain ⟨a, rfl, -⟩ := SystemAct.run_op h
  cases a with
  | error e => exact absurd rfl hid
  | ok flow => exact ⟨flow, rfl, t, [], .start t, .nil, hstep⟩

/-- The runs' first step: a workflow is created, and its first job is pushed, or its
two jobs. -/
def firstJob : List Choice :=
  [.tick 0, .uuid "wf", .ok, .tick 0, .uuid "j1", .ok, .ok, .ok, .ok, .ok, .ok, .ok, .ok]
def bothJobs : List Choice := firstJob ++ [.tick 0, .uuid "j2", .ok, .ok, .ok, .ok, .ok]

/-- A batch of two jobs: one is acked, and the discard of the other ends it and
pushes two callbacks. -/
def demoStep (name : String) : WorkflowJobRequest := { type := name, args := some "[]" }
def demoBatch : WorkflowRequest where
  type := "batch"
  jobs := [demoStep "a", demoStep "b"]
  callbacks := some
    { onComplete := some { type := "done" }
      onSuccess := some { type := "succeeded" }
      onFailure := some { type := "failed" } }
def demoGroup : WorkflowRequest where
  type := "group"
  jobs := [demoStep "a", demoStep "b"]
def ackBatch : SystemAct := .op (.job (.ack "j1" (some "1")))
  [.ok, .tick 0, .ok, .ok, .ok, .ok, .ok, .ok, .ok, .ok, .ok, .ok, .ok]
def fetchSecond : SystemAct := .op (.job (.fetch 1 ["default"] 1 "w1" 0))
  [.tick 0, .ok, .ok, .deliver [1], .ok, .ok, .ok]
def fatalError : JobError := { demoError with retryable := some false }
def discardSecond : SystemAct :=
  .op (.job (.nack "j2" (some fatalError) false))
    [.ok, .tick 0, .ok, .ok, .ok, .ok, .ok, .ok, .ok, .ok, .tick 0, .ok, .tick 0, .uuid "c1", .ok, .ok,
      .ok, .ok, .tick 0, .uuid "c2", .ok, .ok, .ok, .ok, .ok]

/-- A script that begins with the creation of the workflow. -/
theorem follow_demo {req : WorkflowRequest} (create : List Choice) (as : List SystemAct)
    {es : List Finish} {α : Type} {f : World → World → α} {a : α}
    (h : ((SystemAct.op (.createWorkflow req) create).run demo demoLib {} (.start 0)).bind (fun x =>
      (SystemAct.follow demo demoLib {} "wf" as (x.2, [])).map fun y =>
        (x.1.flowID, y.2.2, f x.2 y.2.1)) = some ("wf", es, a)) :
    ∃ flow w₁ ls w, flow.id = "wf" ∧ Creates demo demoLib {} req flow w₁ ∧
      Path (Noting (flowNotes flow.id) (FlowStep demo demoLib {} flow.id (FlowUndisturbed flow.id)))
        (w₁, []) ls (w, es) ∧ f w₁ w = a := by
  obtain ⟨⟨l, w₁⟩, hrun, hrest⟩ := Option.bind_eq_some_iff.mp h
  obtain ⟨⟨ls, w, es'⟩, hfollow, hrest⟩ := Option.map_eq_some_iff.mp hrest
  obtain ⟨hid, hrest⟩ := Prod.mk.inj hrest
  obtain ⟨hes, hf⟩ := Prod.mk.inj hrest
  have hid : l.flowID = "wf" := hid
  have hes : es' = es := hes
  subst hes
  obtain ⟨flow, hflow, hcreates⟩ := creates_of_run (by rw [hid]; decide) hrun
  rw [hid] at hflow
  refine ⟨flow, w₁, ls, w, hflow, hcreates, ?_, hf⟩
  rw [hflow]
  exact SystemAct.follow_path hfollow

/-- A script after the creation of the workflow, with its notes. -/
theorem play_demo (req : WorkflowRequest) (create : List Choice) (as : List SystemAct) {α : Type}
    (f : World → World → List Finish → α) (a : α) {P : World → SystemLabel → Prop}
    (h : ((SystemAct.op (.createWorkflow req) create).run demo demoLib {} (.start 0)).bind (fun x =>
      (SystemAct.play demo demoLib {} as x.2).map fun y =>
        (x.1.flowID, f x.2 y.2 (SystemAct.notes demo demoLib {} "wf" as x.2))) = some ("wf", a))
    (hok : ∀ x ∈ as, ∀ w l w', x.run demo demoLib {} w = some (l, w') → P w l) :
    ∃ flow w₁ ls w es, flow.id = "wf" ∧ Creates demo demoLib {} req flow w₁ ∧
      Path (Noting (flowNotes flow.id) (Meeting P (SystemStep demo demoLib {}))) (w₁, []) ls (w, es) ∧
      f w₁ w es = a := by
  obtain ⟨⟨l, w₁⟩, hrun, hrest⟩ := Option.bind_eq_some_iff.mp h
  obtain ⟨⟨ls, w⟩, hplay, hrest⟩ := Option.map_eq_some_iff.mp hrest
  obtain ⟨hid, hf⟩ := Prod.mk.inj hrest
  have hid : l.flowID = "wf" := hid
  obtain ⟨flow, hflow, hcreates⟩ := creates_of_run (by rw [hid]; decide) hrun
  rw [hid] at hflow
  refine ⟨flow, w₁, ls, w, _, hflow, hcreates, ?_, hf⟩
  rw [hflow]
  exact SystemAct.play_noted hplay hok []

/-- All jobs of the workflow have ended. -/
theorem all_ended {w : World} {wfID : String} (h : (w.store.jobs.keys.all fun id =>
    (w.flowJob wfID id).all (isTerminalState ·.state)) = true) :
    ∀ id r, w.flowJob wfID id = some r → isTerminalState r.state = true := by
  intro id r hr
  have hterm := List.all_eq_true.mp h id (mem_keys_of_flowJob hr)
  rw [hr] at hterm
  exact hterm

/-- The ends of the batch's jobs. -/
def batchEnds : List Finish := [⟨"j1", false, some "1"⟩, ⟨"j2", true, none⟩]

/-- The run of the batch. -/
theorem batch_demo_runs : ∃ flow w₁ ls w, flow.id = "wf" ∧ Creates demo demoLib {} demoBatch flow w₁ ∧
    Path (Noting (flowNotes flow.id) (FlowStep demo demoLib {} flow.id (FlowUndisturbed flow.id)))
      (w₁, []) ls (w, batchEnds) ∧
    (["j1", "j2", "c1", "c2"].map fun id => (w.store.jobs.lookup id).map fun r => (r.type, r.state)) =
      [some ("a", .completed), some ("b", .discarded), some ("done", .available),
        some ("failed", .available)] :=
  follow_demo bothJobs [fetchFirst, ackBatch, fetchSecond, discardSecond] rfl

/-- The step that ends the batch. -/
theorem batch_demo_last : ∃ flow w₁ ls w a w', Creates demo demoLib {} demoBatch flow w₁ ∧
    (∀ id ∈ ["j1", "j2"], (w₁.flowJob flow.id id).isSome) ∧
    Path (Noting (flowNotes flow.id) (FlowStep demo demoLib {} flow.id fun _ _ => True))
      (w₁, []) ls (w, [⟨"j1", false, some "1"⟩]) ∧
    SystemStep demo demoLib {} w (.op (.job (.nack "j2" (some fatalError) false)) a) w' ∧
    flowNotes flow.id w (.op (.job (.nack "j2" (some fatalError) false)) a) = [⟨"j2", true, none⟩] := by
  have hruns : ∃ flow w₁ ls w, flow.id = "wf" ∧ Creates demo demoLib {} demoBatch flow w₁ ∧
      Path (Noting (flowNotes flow.id) (FlowStep demo demoLib {} flow.id (FlowUndisturbed flow.id)))
        (w₁, []) ls (w, [⟨"j1", false, some "1"⟩]) ∧
      (["j1", "j2"].all (fun id => (w₁.flowJob "wf" id).isSome),
        (discardSecond.run demo demoLib {} w).map fun y => flowNotes "wf" w y.1) =
        (true, some [⟨"j2", true, none⟩]) := follow_demo bothJobs [fetchFirst, ackBatch, fetchSecond] rfl
  obtain ⟨flow, w₁, ls, w, hid, hcreates, hpath, hlast⟩ := hruns
  rw [← hid] at hlast
  obtain ⟨hjobs, hlast⟩ := Prod.mk.inj hlast
  obtain ⟨⟨l, w'⟩, hrun, hnotes⟩ := Option.map_eq_some_iff.mp hlast
  have hstep := SystemAct.run_step hrun
  obtain ⟨a, rfl, -⟩ := SystemAct.run_op hrun
  exact ⟨flow, w₁, ls, w, a, w', hcreates, List.all_eq_true.mp hjobs, flow_path_any hpath, hstep, hnotes⟩

end OjsSqs
