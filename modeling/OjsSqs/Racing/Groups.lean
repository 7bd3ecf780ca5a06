import OjsSqs.Racing.Counters

/-! # Groups and batches of jobs that finish together

The `AdvanceWorkflow` calls of a group's jobs run next to each other. The
condition on a run is about its calls only: none reads the workflow while
another has read it and has not written its counters yet. -/
namespace OjsSqs
open Calls

variable {ι : Type}

/-- The call `i` has read the workflow and has not written it. -/
def WindowOpen (wfID : String) (tr : List (Event ι Call Answer)) (i : ι) : Prop :=
  (∃ e ∈ tr, e.thread = i ∧ e.call = .dynamo (.getWorkflowItem wfID)) ∧
    ∀ e ∈ tr, e.thread = i → e.call.writesWorkflow ≠ some wfID

/-- The workflow is not read while another call's window is open. -/
def ReadsApart (wfID : String) (tr : List (Event ι Call Answer)) (_ : World)
    (e : Event ι Call Answer) : Prop :=
  e.call = .dynamo (.getWorkflowItem wfID) → ∀ i, i ≠ e.thread → ¬WindowOpen wfID tr i

section
variable {wfID : String} {tr : List (Event ι Call Answer)} {i j : ι} {c : Call} {r : Answer c}

theorem WindowOpen.append (h : WindowOpen wfID tr i)
    (hc : j = i → c.writesWorkflow ≠ some wfID) : WindowOpen wfID (tr ++ [⟨j, c, r⟩]) i := by
  obtain ⟨⟨e, he, hread⟩, hno⟩ := h
  refine ⟨⟨e, List.mem_append_left _ he, hread⟩, fun e he hi => ?_⟩
  rcases List.mem_append.mp he with he | he
  · exact hno e he hi
  · rw [List.mem_singleton.mp he] at hi ⊢
    exact hc hi

end

variable [Fintype ι] [DecidableEq ι]

/-- What the calls of a group keep. -/
structure Counted (wfID : String) (job : ι → String) (failed : ι → Bool)
    (tr : List (Event ι Call Answer)) (w : World) (t : ι → Advance) : Prop where
  jobs : ∀ i, ∃ r, w.store.jobs.lookup (job i) = some r ∧ r.workflowID = wfID
  record : ∃ wf, w.store.workflows.lookup wfID = some wf ∧ Tallied failed t wf
  here : ∀ i, t i ≠ .gone
  made : ∀ i id, t i = .done (some id) → ∀ j, job j ≠ id
  early : ∀ i, t i = .idle → ∀ e ∈ tr, e.thread = i → e.call.writesWorkflow ≠ some wfID
  window : ∀ i wf, t i = .holding wf → WindowOpen wfID tr i

section
variable {wfID : String} {job : ι → String} {failed : ι → Bool} {tr : List (Event ι Call Answer)}
  {w w' : World} {t : ι → Advance} {i : ι} {c : Call} {r : Answer c} {s : Advance} {ρ : Rules}

/-- A step of the call `i` that leaves the records of the group's jobs. -/
theorem Counted.move (h : Counted wfID job failed tr w t) {wf' : WorkflowRecord}
    (hjobs : ∀ j, w'.store.jobs.lookup (job j) = w.store.jobs.lookup (job j))
    (hrec : w'.store.workflows.lookup wfID = some wf')
    (htally : Tallied failed (Function.update t i s) wf') (hs : s ≠ .gone)
    (hmade : ∀ id, s = .done (some id) → ∀ j, job j ≠ id)
    (hearly : s = .idle → t i = .idle ∧ c.writesWorkflow ≠ some wfID)
    (hwindow : ∀ wf, s = .holding wf → WindowOpen wfID (tr ++ [⟨i, c, r⟩]) i) :
    Counted wfID job failed (tr ++ [⟨i, c, r⟩]) w' (Function.update t i s) := by
  refine ⟨fun j => ?_, ⟨wf', hrec, htally⟩, fun j => ?_, fun j id hj => ?_, fun j hj e he hthread => ?_,
    fun j wf hj => ?_⟩
  · rw [hjobs]
    exact h.jobs j
  · by_cases hji : j = i
    · rw [hji, Function.update_self]
      exact hs
    · rw [Function.update_of_ne hji]
      exact h.here j
  · by_cases hji : j = i
    · rw [hji, Function.update_self] at hj
      exact hmade id hj
    · rw [Function.update_of_ne hji] at hj
      exact h.made j id hj
  · by_cases hji : j = i
    · subst hji
      rw [Function.update_self] at hj
      obtain ⟨hidle, hc⟩ := hearly hj
      rcases List.mem_append.mp he with he | he
      · exact h.early j hidle e he hthread
      · rw [List.mem_singleton.mp he]
        exact hc
    · rw [Function.update_of_ne hji] at hj
      rcases List.mem_append.mp he with he | he
      · exact h.early j hj e he hthread
      · rw [List.mem_singleton.mp he] at hthread
        exact absurd hthread.symm hji
  · by_cases hji : j = i
    · subst hji
      rw [Function.update_self] at hj
      exact hwindow wf hj
    · rw [Function.update_of_ne hji] at hj
      exact (h.window j wf hj).append fun hij => absurd hij.symm hji

/-- A call that changes neither the workflow nor where its thread stands. -/
theorem Counted.quiet (h : Counted wfID job failed tr w t)
    (hjobs : ∀ j, w'.store.jobs.lookup (job j) = w.store.jobs.lookup (job j))
    (hc : c.writesWorkflow = none) (he : ρ.env c w r w') :
    Counted wfID job failed (tr ++ [⟨i, c, r⟩]) w' (Function.update t i (t i)) := by
  obtain ⟨wf, hwf, htally⟩ := h.record
  have hne : c.writesWorkflow ≠ some wfID := hc.trans_ne nofun
  refine h.move hjobs ((Rules.env_workflows hc he wfID).trans hwf) ?_ (h.here i) (h.made i) (fun hs => ⟨hs, hne⟩)
    fun wf hs => (h.window i wf hs).append fun _ => hne
  rw [Function.update_eq_self]
  exact htally

variable (hρ : ρ.faults = false)
include hρ

omit [DecidableEq ι] in
/-- A read of the job's record finds it. -/
theorem Counted.readJob (h : Counted wfID job failed tr w t) {a : Except AwsError (Option JobRecord)}
    (he : ρ.env (.dynamo (.getJobItem (job i))) w a w') :
    ∃ x, a = .ok (some x) ∧ x.workflowID = wfID ∧ w' = w := by
  obtain ⟨ha, hw⟩ := Rules.env_run hρ rfl he
  obtain ⟨x, hx, hwf⟩ := h.jobs i
  rw [Store.run, hx] at ha
  exact ⟨x, ha, hwf, hw⟩

theorem Counted.idle (h : Counted wfID job failed tr w t) (hi : t i = .idle)
    (hc : (advancing wfID (job i) (failed i)).allow .idle c) (he : ρ.env c w r w')
    (hok : ReadsApart wfID tr w ⟨i, c, r⟩) :
    Counted wfID job failed (tr ++ [⟨i, c, r⟩]) w'
      (Function.update t i ((advancing wfID (job i) (failed i)).next .idle c r)) := by
  rcases hc with rfl | rfl
  · obtain ⟨x, rfl, hx, rfl⟩ := h.readJob hρ he
    rw [show (advancing wfID (job i) (failed i)).next .idle (.dynamo (.getJobItem (job i)))
      (.ok (some x)) = t i from (if_pos hx).trans hi.symm]
    exact h.quiet (fun _ => rfl) rfl he
  · obtain ⟨wf, hwf, htally⟩ := h.record
    obtain ⟨ha, rfl⟩ := Rules.env_run hρ rfl he
    rw [Store.run, hwf] at ha
    obtain rfl : r = .ok (some wf) := ha
    have hrun : wf.state = .running := htally.running ⟨i, by rw [hi]; rfl⟩
    have hfree : ∀ j wf', t j ≠ .holding wf' := fun j wf' hj => by
      have hji : j ≠ i := fun hji => by
        rw [hji, hi] at hj
        cases hj
      exact hok rfl j hji (h.window j wf' hj)
    rw [show (advancing wfID (job i) (failed i)).next .idle (.dynamo (.getWorkflowItem wfID))
      (.ok (some wf)) = .holding wf from if_pos ⟨hrun, htally.type⟩]
    refine h.move (fun _ => rfl) hwf (htally.read hi hfree) (fun hs => by cases hs)
      (fun _ hs => by cases hs) (fun hs => by cases hs) fun _ _ => ?_
    refine ⟨⟨_, List.mem_append_right _ (List.mem_singleton_self _), rfl, rfl⟩, fun e he hthread => ?_⟩
    rcases List.mem_append.mp he with he | he
    · exact h.early i hi e he hthread
    · rw [List.mem_singleton.mp he]
      exact fun hw => by cases hw

theorem Counted.holding (h : Counted wfID job failed tr w t) {wf : WorkflowRecord}
    (hi : t i = .holding wf) (hc : (advancing wfID (job i) (failed i)).allow (.holding wf) c)
    (he : ρ.env c w r w') :
    Counted wfID job failed (tr ++ [⟨i, c, r⟩]) w'
      (Function.update t i ((advancing wfID (job i) (failed i)).next (.holding wf) c r)) := by
  rcases hc with rfl | ⟨k, res, rfl⟩ | rfl
  · obtain ⟨x, rfl, -, rfl⟩ := h.readJob hρ he
    rw [show (advancing wfID (job i) (failed i)).next (.holding wf) (.dynamo (.getJobItem (job i)))
      (.ok (some x)) = t i from hi.symm]
    exact h.quiet (fun _ => rfl) rfl he
  · rw [show (advancing wfID (job i) (failed i)).next (.holding wf)
      (.dynamo (.putWorkflowResultItem wfID k res)) r = t i from hi.symm]
    exact h.quiet (fun j => Rules.env_jobs rfl he _) rfl he
  · obtain ⟨wf', hwf, htally⟩ := h.record
    obtain rfl := htally.held i wf hi
    obtain ⟨ha, rfl⟩ := Rules.env_run hρ rfl he
    have hset : (w.setStore (w.store.run (.updateWorkflowItem wfID
        (counterUpdates wf (failed i)))).2).store.workflows.lookup wfID =
        some (wf.update (counterUpdates wf (failed i))) := by
      simp only [Store.run, hwf, World.setStore, AList.lookup_insert]
    have hjobs : ∀ j, (w.setStore (w.store.run (.updateWorkflowItem wfID
        (counterUpdates wf (failed i)))).2).store.jobs.lookup (job j) =
        w.store.jobs.lookup (job j) := fun j => Rules.env_jobs rfl he _
    have hcount := htally.count hi
    show Counted wfID job failed _ _ (Function.update t i (if allFinished wf (failed i) then
      .finishing (failedAfter wf (failed i)) else .done none))
    cases hfin : allFinished wf (failed i) with
    | true =>
      rw [hfin] at hcount
      exact h.move hjobs hset hcount (fun hs => by cases hs) (fun _ hs => by cases hs)
        (fun hs => by cases hs) (fun _ hs => by cases hs)
    | false =>
      rw [hfin] at hcount
      exact h.move hjobs hset hcount (fun hs => by cases hs) (fun _ hs => by cases hs)
        (fun hs => by cases hs) (fun _ hs => by cases hs)

theorem Counted.finishing (h : Counted wfID job failed tr w t) {n : Int}
    (hi : t i = .finishing n) (hc : (advancing wfID (job i) (failed i)).allow (.finishing n) c)
    (he : ρ.env c w r w') :
    Counted wfID job failed (tr ++ [⟨i, c, r⟩]) w'
      (Function.update t i ((advancing wfID (job i) (failed i)).next (.finishing n) c r)) := by
  rcases hc with hc | ⟨now, rfl⟩
  · have hn : (advancing wfID (job i) (failed i)).next (.finishing n) c r = t i := by
      cases c with
      | dynamo d => cases hc
      | sqs c => exact hi.symm
      | proc c => exact hi.symm
    have hst : w'.store = w.store := Rules.env_aside (fun d hd => by rw [hd] at hc; cases hc) he
    rw [hn]
    refine h.quiet (fun j => by rw [hst]) ?_ he
    cases c with
    | dynamo d => cases hc
    | sqs c => rfl
    | proc c => rfl
  · obtain ⟨wf, hwf, htally⟩ := h.record
    obtain ⟨ha, rfl⟩ := Rules.env_run hρ rfl he
    have hset : (w.setStore (w.store.run (.updateWorkflowItem wfID [.state (finalState n),
        .completedAt now])).2).store.workflows.lookup wfID =
        some (wf.update [.state (finalState n), .completedAt now]) := by
      simp only [Store.run, hwf, World.setStore, AList.lookup_insert]
    exact h.move (fun j => Rules.env_jobs rfl he _) hset (htally.finish hi now)
      (fun hs => by cases hs) (fun _ hs => by cases hs) (fun hs => by cases hs)
      (fun _ hs => by cases hs)

omit hρ in
/-- A finished call may still push the callbacks of the batch. -/
theorem Counted.done (h : Counted wfID job failed tr w t) {o : Option String}
    (hi : t i = .done o) (hc : c.spawns o) (he : ρ.env c w r w') :
    Counted wfID job failed (tr ++ [⟨i, c, r⟩]) w'
      (Function.update t i (.done (freshAfter o c r))) := by
  obtain ⟨wf, hwf, htally⟩ := h.record
  have hnone : c.writesWorkflow = none := by
    cases c with
    | dynamo d => cases d <;> first | rfl | cases hc
    | sqs c => rfl
    | proc c => rfl
  have hjobs : ∀ j, w'.store.jobs.lookup (job j) = w.store.jobs.lookup (job j) := fun j => by
    refine Rules.env_job (fun hw => ?_) he
    cases c with
    | dynamo d =>
      cases d with
      | putJobItem x =>
        rw [show o = some x.id from hc] at hi
        exact h.made i x.id hi j (Option.some.inj hw).symm
      | updateJobItem => cases hc
      | _ => cases hw
    | sqs c => cases hw
    | proc c => cases hw
  refine h.move hjobs ((Rules.env_workflows hnone he wfID).trans hwf) (htally.stay hi)
    (fun hs => by cases hs) (fun id hs j hj => ?_) (fun hs => by cases hs) (fun _ hs => by cases hs)
  by_cases hu : c = .proc .newUUIDv7
  · subst hu
    -- a new identifier is not the one of a stored job
    have hid : r = id := Option.some.inj (Advance.done.inj hs)
    obtain ⟨x, hx, -⟩ := h.jobs j
    rw [hj, ← hid, Rules.env_newUUIDv7 he] at hx
    cases hx
  · rw [freshAfter_of_ne o r hu] at hs
    exact h.made i id (hi.trans hs) j hj

theorem Counted.next (h : Counted wfID job failed tr w t)
    (hc : (advancing wfID (job i) (failed i)).allow (t i) c) (he : ρ.env c w r w')
    (hok : ReadsApart wfID tr w ⟨i, c, r⟩) :
    Counted wfID job failed (tr ++ [⟨i, c, r⟩]) w'
      (Monitor.track (fun i => advancing wfID (job i) (failed i)) t ⟨i, c, r⟩) := by
  rw [Monitor.track]
  simp only
  cases hi : t i with
  | idle => exact h.idle hρ hi (hi ▸ hc) he hok
  | holding wf => exact h.holding hρ hi (hi ▸ hc) he
  | finishing n => exact h.finishing hρ hi (hi ▸ hc) he
  | done o =>
    rw [hi] at hc
    exact h.done hi hc he
  | gone => exact absurd hi (h.here i)

end

/-! ## All jobs are counted -/

/-- The record counts all jobs of the group and has its final state. -/
structure CountsAll (st : ι → JobState) (wf : WorkflowRecord) : Prop where
  completed : wf.completed = (Finset.univ.filter fun i => st i = .completed).card
  failed : wf.failed = (Finset.univ.filter fun i => st i = .discarded).card
  state : wf.state = if ∃ i, st i = .discarded then .failed else .completed

/-- The jobs that `AdvanceWorkflow` is told have failed. -/
def failedJobs (st : ι → JobState) (i : ι) : Bool :=
  decide (st i = .discarded ∨ st i = .cancelled)

omit [Fintype ι] [DecidableEq ι] in
theorem failedJobs_eq {st : ι → JobState} {i : ι}
    (hst : st i = .completed ∨ st i = .discarded) :
    failedJobs st i = decide (st i = .discarded) := by
  rcases hst with h | h <;> rw [failedJobs, h] <;> rfl

omit [DecidableEq ι] in
theorem Tallied.countsAll {st : ι → JobState} {t : ι → Advance} {wf : WorkflowRecord}
    (h : Tallied (failedJobs st) t wf) (hst : ∀ i, st i = .completed ∨ st i = .discarded)
    (hdone : ∀ i, (t i).isDone = true) : CountsAll st wf := by
  have hcounted : ∀ i, (t i).counted = true := fun i => by
    have hi := hdone i
    cases hs : t i <;> rw [hs] at hi <;> first | rfl | cases hi
  have hfail : wf.failed = (Finset.univ.filter fun i => st i = .discarded).card := by
    rw [h.failures, tally]
    congr 2
    ext i
    simp [asFailed, hcounted i, failedJobs_eq (hst i)]
  refine ⟨?_, hfail, ?_⟩
  · rw [h.completed, tally]
    congr 2
    ext i
    rcases hst i with hi | hi <;> simp [asCompleted, hcounted i, failedJobs, hi]
  · rw [h.final hdone, finalState, hfail]
    refine if_congr ?_ rfl rfl
    rw [Int.natCast_pos, Finset.card_pos, Finset.filter_nonempty_iff]
    simp

/-- **All jobs are counted.** In every run in which no call reads the workflow
between another's read and write, the workflow ends with all jobs counted. -/
theorem group_counts_all [Nonempty ι] {cfg : Config} {ρ : Rules} {wf : WorkflowRecord}
    {job : ι → String} {st : ι → JobState} {result : ι → Option String}
    {tr : List (Event ι Call Answer)} {P P' : Pool ι World Call Answer Unit}
    (hρ : ρ.faults = false) (hst : ∀ i, st i = .completed ∨ st i = .discarded)
    (hP : ∀ i, P.thread i = advanceWorkflowOf cfg (job i) (st i) (result i))
    (hjobs : ∀ i, ∃ r, P.world.store.jobs.lookup (job i) = some r ∧ r.workflowID = wf.id)
    (hwf : P.world.store.workflows.lookup wf.id = some wf) (hid : wf.id ≠ "")
    (htype : wf.type ≠ "chain") (hrunning : wf.state = .running)
    (htotal : wf.total = Fintype.card ι) (hcompleted : wf.completed = 0) (hfailed : wf.failed = 0)
    (hr : Pool.Run ρ.env (ReadsApart wf.id) P tr P') (hfin : P'.Finished) :
    ∃ wf', P'.world.store.workflows.lookup wf.id = some wf' ∧ CountsAll st wf' := by
  have hconf : ∀ i, (advancing wf.id (job i) (failedJobs st i)).Conforms (P.thread i) .idle :=
    fun i => by
      rw [hP i]
      exact advancing_advanceWorkflowOf cfg hid (st i) (result i)
  have htally : Tallied (failedJobs st) (fun _ : ι => Advance.idle) wf := by
    refine ⟨htype, htotal, ?_, ?_, fun _ _ h => (by cases h), fun _ _ _ _ h => (by cases h),
      fun _ _ h => (by cases h), fun _ => hrunning, fun h => ?_⟩
    · rw [tally_eq_zero fun _ => rfl, hcompleted]
      rfl
    · rw [tally_eq_zero fun _ => rfl, hfailed]
      rfl
    · obtain ⟨i⟩ := ‹Nonempty ι›
      cases h i
  have h0 : Counted wf.id job (failedJobs st) [] P.world fun _ => .idle :=
    ⟨hjobs, ⟨wf, hwf, htally⟩, fun _ h => (by cases h), fun _ _ h => (by cases h),
      fun _ _ _ h => (by cases h), fun _ _ h => (by cases h)⟩
  obtain ⟨hI, hc⟩ := hr.invariant (m := fun i => advancing wf.id (job i) (failedJobs st i))
    (s := fun _ => .idle) (Counted wf.id job (failedJobs st)) hconf h0
    fun _ _ _ _ _ _ _ hI ha he hok => hI.next hρ ha he hok
  obtain ⟨wf', hwf', htally'⟩ := hI.record
  refine ⟨wf', hwf', htally'.countsAll hst fun i => ?_⟩
  obtain ⟨a, ha⟩ := hfin i
  have hacc := Pool.accepted (hc i) ha
  cases hs : Monitor.states (fun i => advancing wf.id (job i) (failedJobs st i))
      (fun _ => .idle) tr i with
  | done o => rfl
  | gone => exact absurd hs (hI.here i)
  | idle | holding | finishing =>
    rw [hs] at hacc
    exact hacc.elim

/-! ## Two jobs of one group -/

/-- Two jobs of a running group: one completes, the other is discarded. -/
def pair : WorkflowRecord :=
  { id := "wf", type := "group", state := .running, total := 2, completed := 0, failed := 0 }

def pairJob (first : Bool) : String := if first then "a" else "b"

def pairState (first : Bool) : JobState := if first then .completed else .discarded

def pairWorld : World :=
  { store := {
      jobs := (AList.insert "a" { id := "a", state := .completed, workflowID := "wf" } ∅).insert "b"
        { id := "b", state := .discarded, workflowID := "wf" }
      workflows := AList.insert "wf" pair ∅ } }

def pairPool : Pool Bool World Call Answer Unit :=
  ⟨pairWorld, fun i => advanceWorkflowOf demo (pairJob i) (pairState i) none⟩

/-- One after the other. -/
def inTurn : List (Bool × Choice) :=
  [(true, .ok), (true, .ok), (true, .ok), (true, .ok), (false, .ok), (false, .ok), (false, .ok),
    (false, .ok), (false, .tick 0), (false, .ok)]

/-- Both read the workflow before either writes it. -/
def atOnce : List (Bool × Choice) :=
  [(true, .ok), (false, .ok), (true, .ok), (false, .ok), (true, .ok), (false, .ok), (true, .ok),
    (false, .ok)]

instance (wfID : String) (tr : List (Event Bool Call Answer)) (i : Bool) :
    Decidable (WindowOpen wfID tr i) := inferInstanceAs (Decidable (_ ∧ _))

instance (wfID : String) (tr : List (Event Bool Call Answer)) (w : World)
    (e : Event Bool Call Answer) : Decidable (ReadsApart wfID tr w e) :=
  inferInstanceAs (Decidable (_ → _))

theorem pair_jobs (i : Bool) :
    ∃ r, pairWorld.store.jobs.lookup (pairJob i) = some r ∧ r.workflowID = pair.id := by
  cases i <;> exact ⟨_, rfl, rfl⟩

theorem pair_states (i : Bool) : pairState i = .completed ∨ pairState i = .discarded := by
  cases i
  · exact .inr rfl
  · exact .inl rfl

/-- The two jobs in turn are both counted. -/
theorem group_counts_all_inTurn : ∃ P' : Pool Bool World Call Answer Unit, P'.Finished ∧
    ∃ wf', P'.world.store.workflows.lookup "wf" = some wf' ∧ CountsAll pairState wf' := by
  have hrun : ∃ out, Pool.script (Rules.act {}) (ReadsApart "wf") [] inTurn pairPool = some out ∧
      ∀ i, out.2.thread i = .pure () := ⟨_, rfl, fun i => by cases i <;> rfl⟩
  obtain ⟨⟨tr, P'⟩, hscript, hpure⟩ := hrun
  have hfin : P'.Finished := fun i => ⟨(), hpure i⟩
  have hr : Pool.Run (Rules.env {}) (ReadsApart "wf") pairPool tr P' :=
    Pool.script_run inTurn .start hscript
  exact ⟨P', hfin, @group_counts_all Bool _ _ _ demo {} pair pairJob pairState (fun _ => none)
    tr pairPool P' rfl pair_states (fun _ => rfl) pair_jobs rfl
    (by decide) (by decide) rfl rfl rfl rfl hr hfin⟩

/-- When both jobs finish at once, one of them is not counted, and the group
stays running. -/
theorem group_loses_count : ¬ ∀ (cfg : Config) (ρ : Rules) (wf : WorkflowRecord)
    (job : Bool → String) (st : Bool → JobState) (result : Bool → Option String)
    (tr : List (Event Bool Call Answer)) (P P' : Pool Bool World Call Answer Unit),
    ρ.faults = false → Function.Injective job → (∀ i, st i = .completed ∨ st i = .discarded) →
    (∀ i, P.thread i = advanceWorkflowOf cfg (job i) (st i) (result i)) →
    (∀ i, ∃ r, P.world.store.jobs.lookup (job i) = some r ∧ r.workflowID = wf.id) →
    P.world.store.workflows.lookup wf.id = some wf → wf.id ≠ "" → wf.type = "group" →
    wf.state = .running → wf.total = 2 → wf.completed = 0 → wf.failed = 0 →
    Pool.Run ρ.env Pool.anyStep P tr P' → P'.Finished →
    ∃ wf', P'.world.store.workflows.lookup wf.id = some wf' ∧ CountsAll st wf' := by
  intro hall
  have hrun : ∃ out, Pool.script (Rules.act {}) Pool.anyStep [] atOnce pairPool = some out ∧
      (∀ i, out.2.thread i = .pure ()) ∧
      (out.2.world.store.workflows.lookup "wf").map (·.state) = some .running :=
    ⟨_, rfl, fun i => by cases i <;> rfl, rfl⟩
  obtain ⟨⟨tr, P'⟩, hscript, hpure, hstate⟩ := hrun
  obtain ⟨wf', hwf', hcounts⟩ := hall demo {} pair pairJob pairState (fun _ => none) tr pairPool P'
    rfl (by decide) pair_states (fun _ => rfl) pair_jobs rfl (by decide) rfl rfl rfl rfl rfl
    (Pool.script_run atOnce .start hscript) fun i => ⟨(), hpure i⟩
  have hstate : (P'.world.store.workflows.lookup pair.id).map (·.state) = some .running := hstate
  rw [hwf', Option.map_some, hcounts.state] at hstate
  exact absurd hstate (by decide)

end OjsSqs
