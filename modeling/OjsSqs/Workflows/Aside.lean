import OjsSqs.System.Shifts
import OjsSqs.Workflows.Advance

/-! # What leaves a workflow alone

A call concerns one workflow when it writes the record or a result of it, or
stores a job of it. Only the end of one of its jobs makes such calls, and a
client who cancels the workflow or pushes a job into it. -/
namespace OjsSqs
open Calls

/-- The record of a job of the workflow. -/
def World.flowJob (wfID : String) (w : World) (id : String) : Option JobRecord :=
  (w.store.jobs.lookup id).filter fun r => r.workflowID = wfID

/-- The call neither writes the workflow nor stores a job of it. -/
def Call.sparesFlow (wfID : String) : Call → Prop
  | .dynamo (.putJobItem r) => r.workflowID ≠ wfID
  | .dynamo (.putWorkflowItem wf) => wf.id ≠ wfID
  | .dynamo (.updateWorkflowItem id _) => id ≠ wfID
  | .dynamo (.putWorkflowResultItem id _ _) => id ≠ wfID
  | _ => True

/-- The workflow is the same, and no job of it is new. -/
structure FlowAside (wfID : String) (w w' : World) : Prop where
  record : w'.store.workflows.lookup wfID = w.store.workflows.lookup wfID
  results : ∀ i, w'.store.workflowResults.lookup (wfID, i) = w.store.workflowResults.lookup (wfID, i)
  noneNew : ∀ id, w.flowJob wfID id = none → w'.flowJob wfID id = none

/-- The writes of jobs that are not the workflow's. -/
def Writes.others (wfID : String) : Writes where
  rewrite _ _ := True
  create r := r.workflowID ≠ wfID
  carry _ := True
  send _ := True
  mark _ _ := True
  bury _ := True

section
variable {cfg : Config} {ρ : Rules} {w w₁ w' : World} {wfID id : String} {r : JobRecord}

theorem flowJob_eq_some : w.flowJob wfID id = some r ↔
    w.store.jobs.lookup id = some r ∧ r.workflowID = wfID := by
  rw [World.flowJob, Option.filter_eq_some_iff, decide_eq_true_eq]

theorem mem_keys_of_flowJob (h : w.flowJob wfID id = some r) : id ∈ w.store.jobs.keys := by
  refine AList.mem_keys.mp (AList.lookup_isSome.mp ?_)
  rw [(flowJob_eq_some.mp h).1]
  rfl

theorem flowJob_eq_none : w.flowJob wfID id = none ↔
    ∀ r, w.store.jobs.lookup id = some r → r.workflowID ≠ wfID := by
  rw [World.flowJob, Option.filter_eq_none_iff]
  simp only [decide_eq_true_eq]

theorem JobRecord.fixed_workflowID {r' : JobRecord} (h : r'.fixed = r.fixed) :
    r'.workflowID = r.workflowID := congrArg (fun r => r.workflowID) h

theorem JobRecord.fixed_expiresAt {r' : JobRecord} (h : r'.fixed = r.fixed) :
    r'.expiresAt = r.expiresAt := congrArg (fun r => r.expiresAt) h

theorem FlowAside.refl (wfID : String) (w : World) : FlowAside wfID w w := ⟨rfl, fun _ => rfl, fun _ h => h⟩

theorem FlowAside.trans (h : FlowAside wfID w w₁) (h' : FlowAside wfID w₁ w') :
    FlowAside wfID w w' where
  record := h'.record.trans h.record
  results i := (h'.results i).trans (h.results i)
  noneNew id hn := h'.noneNew id (h.noneNew id hn)

theorem FlowAside.of_tables (hjobs : w'.store.jobs = w.store.jobs) (hflows : SameFlows w w') :
    FlowAside wfID w w' where
  record := by rw [hflows.workflows]
  results i := by rw [hflows.results]
  noneNew id hn := by
    rw [World.flowJob, hjobs]
    exact hn

theorem FlowAside.of_store (h : w'.store = w.store) : FlowAside wfID w w' :=
  .of_tables (congrArg Store.jobs h) ⟨congrArg Store.workflows h, congrArg Store.workflowResults h⟩

/-- Jobs that are not the workflow's are added. -/
theorem AddsJobs.noneNew {specs : List Job} (h : AddsJobs cfg specs w w')
    (hspecs : ∀ job ∈ specs, job.workflowID ≠ wfID) (hn : w.flowJob wfID id = none) :
    w'.flowJob wfID id = none := by
  refine flowJob_eq_none.mpr fun r hr => ?_
  rcases h.cases id with hsame | ⟨-, job, hjob, t, hnew⟩
  · exact flowJob_eq_none.mp hn r (hsame.symm.trans hr)
  · rw [hnew] at hr
    obtain rfl := Option.some.inj hr
    rw [newRecord_workflowID]
    exact hspecs job hjob

theorem AddsJobs.flowAside {specs : List Job} (h : AddsJobs cfg specs w w')
    (hspecs : ∀ job ∈ specs, job.workflowID ≠ wfID) (hflows : SameFlows w w') :
    FlowAside wfID w w' where
  record := by rw [hflows.workflows]
  results i := by rw [hflows.results]
  noneNew _ hn := h.noneNew hspecs hn

/-! ## Calls -/

/-- A request that is no write of the workflow's. -/
theorem run_sparesFlow {d : DynamoCall} (hd : (Call.dynamo d).sparesFlow wfID) (s : Store) :
    (s.run d).2.workflows.lookup wfID = s.workflows.lookup wfID ∧
      ∀ i, (s.run d).2.workflowResults.lookup (wfID, i) = s.workflowResults.lookup (wfID, i) := by
  cases d with
  | putWorkflowItem wf => exact ⟨AList.lookup_insert_ne fun h => hd h.symm, fun _ => rfl⟩
  | updateWorkflowItem i us =>
    refine ⟨?_, fun _ => ?_⟩
    all_goals simp only [Store.run]
    all_goals split
    all_goals first | rfl | exact AList.lookup_insert_ne fun h => hd h.symm
  | putWorkflowResultItem i step res =>
    exact ⟨rfl, fun _ => AList.lookup_insert_ne fun h => hd (congrArg Prod.fst h).symm⟩
  | _ => first | exact ⟨rfl, fun _ => rfl⟩ | (refine ⟨?_, fun _ => ?_⟩ <;> simp only [Store.run] <;> split <;> rfl)

theorem run_noneNew (hid : wfID ≠ "") {d : DynamoCall} (hd : (Call.dynamo d).sparesFlow wfID)
    (s : Store) (id : String) (hn : (s.jobs.lookup id).filter (fun r => r.workflowID = wfID) = none) :
    ((s.run d).2.jobs.lookup id).filter (fun r => r.workflowID = wfID) = none := by
  cases d with
  | putJobItem r =>
    by_cases he : id = r.id
    · subst he
      have hr : r.workflowID ≠ wfID := hd
      rw [Store.run, AList.lookup_insert, Option.filter_some, if_neg (by simpa using hr)]
    · rw [Store.run, AList.lookup_insert_ne he]
      exact hn
  | updateJobItem i st us sk pk =>
    by_cases he : id = i
    · subst he
      rw [Store.run, AList.lookup_insert, Option.filter_some, if_neg]
      simp only [decide_eq_true_eq]
      rw [JobRecord.fixed_workflowID (JobRecord.update_fixed _ st us sk pk)]
      cases hr : s.jobs.lookup id with
      | none => exact fun h => hid h.symm
      | some r =>
        rw [hr, Option.filter_eq_none_iff] at hn
        simpa using hn r rfl
    · rw [Store.run, AList.lookup_insert_ne he]
      exact hn
  | _ => first | exact hn | (simp only [Store.run]; split <;> exact hn)

/-- A call changes the store as its request says, or not at all. -/
theorem call_store {c : Call} {a : Answer c} (he : ρ.env c w a w') :
    (∃ d, c = .dynamo d ∧ w'.store = (w.store.run d).2) ∨ w'.store = w.store := by
  cases c with
  | dynamo d =>
    obtain ⟨ch, s', -, hact, rfl⟩ := Rules.env_dynamo he
    rcases Store.act_cases hact with hrun | rfl
    · exact .inl ⟨d, rfl, congrArg Prod.snd hrun⟩
    · exact .inr rfl
  | sqs c => exact .inr (Rules.env_aside (fun _ hd => by cases hd) he)
  | proc c => exact .inr (Rules.env_aside (fun _ hd => by cases hd) he)

/-- **One call.** -/
theorem FlowAside.call (hid : wfID ≠ "") {c : Call} {a : Answer c} (hc : c.sparesFlow wfID)
    (he : ρ.env c w a w') : FlowAside wfID w w' := by
  rcases call_store he with ⟨d, rfl, hstore⟩ | hstore
  · refine ⟨?_, fun i => ?_, fun id hn => ?_⟩
    · rw [hstore]
      exact (run_sparesFlow hc w.store).1
    · rw [hstore]
      exact (run_sparesFlow hc w.store).2 i
    · rw [World.flowJob, hstore]
      exact run_noneNew hid hc w.store id hn
  · exact .of_store hstore

/-- The record of the workflow is the same, also where it has no name. -/
theorem sameRecord_wp {α : Type} {p : M α} (hp : p.Only (Call.sparesFlow wfID)) :
    wp ρ.env.every p (fun _ w' =>
      w'.store.workflows.lookup wfID = w.store.workflows.lookup wfID) w := by
  refine hp.keeps (fun w' : World => w'.store.workflows.lookup wfID = w.store.workflows.lookup wfID)
    (fun c w₁ a w₂ hc h he => ?_) rfl
  rcases call_store he with ⟨d, rfl, hstore⟩ | hstore
  · rw [hstore, (run_sparesFlow hc w₁.store).1, h]
  · rw [hstore, h]

/-- **A whole program.** -/
theorem flowAside_wp (hid : wfID ≠ "") {α : Type} {p : M α} (hp : p.Only (Call.sparesFlow wfID)) :
    wp ρ.env.every p (fun _ w' => FlowAside wfID w w') w :=
  hp.keeps (FlowAside wfID w) (fun _ _ _ _ hc h he => h.trans (.call hid hc he)) (.refl wfID w)

theorem Apart.sparesFlow {α : Type} {p : M α} (h : Apart cfg (.others wfID) p) :
    p.Only (Call.sparesFlow wfID) := by
  refine h.mono fun c hc => ?_
  obtain ⟨hw, hj⟩ := hc
  cases c with
  | dynamo d => cases d <;> trivial
  | sqs c => trivial
  | proc c => trivial

/-! ## Pushes of other jobs -/

theorem stores_others {job : Job} (h : job.workflowID ≠ wfID) : (Writes.others wfID).Stores job :=
  ⟨fun _ _ _ => h, trivial, fun _ _ => trivial⟩

theorem push_sparesFlow {job : Job} (h : job.workflowID ≠ wfID) :
    (push cfg job).Only (Call.sparesFlow wfID) := by
  suffices hapart : Apart cfg (.others wfID) (push cfg job) from hapart.sparesFlow
  refine Prog.only_bind apart_timeNow fun now => ?_
  refine Prog.only_bind (apart_assignID _) fun id => ?_
  simp only
  split
  · exact apart_pushNew (stores_others h)
  · refine Prog.only_bind (apart_pushUnique fun _ _ => trivial) fun a => ?_
    split
    · exact Prog.only_pure _
    · exact Prog.only_pure _
    · exact apart_pushNew (stores_others h)

theorem apart_storeOthers (now : Time) {jobs : List Job} (h : ∀ job ∈ jobs, job.workflowID ≠ wfID) :
    ∀ done, Apart cfg (.others wfID) (storeBatch cfg now jobs done) := by
  induction jobs with
  | nil => exact fun done => Prog.only_pure _
  | cons job jobs ih =>
    intro done
    refine Prog.only_bind (apart_assignID _) fun id => ?_
    refine Prog.only_bind (apart_request (c := .putJobItem _) (h job List.mem_cons_self) rfl) fun a => ?_
    split
    · exact Prog.only_pure _
    · refine Prog.only_bind (apart_registerQueue _) fun a => ?_
      split
      · exact Prog.only_pure _
      · exact ih (fun j hj => h j (List.mem_cons_of_mem _ hj)) _

theorem pushBatch_sparesFlow {jobs : List Job} (h : ∀ job ∈ jobs, job.workflowID ≠ wfID) :
    (pushBatch cfg jobs).Only (Call.sparesFlow wfID) := by
  suffices hapart : Apart cfg (.others wfID) (pushBatch cfg jobs) from hapart.sparesFlow
  rw [pushBatch]
  split
  · exact Prog.only_pure _
  · split
    · exact Prog.only_pure _
    · refine Prog.only_bind apart_timeNow fun now => ?_
      refine Prog.only_bind (apart_storeOthers now h []) fun a => ?_
      split
      · exact Prog.only_pure _
      · refine Prog.only_bind ?_ fun a => ?_
        · exact Prog.only_bind (Prog.only_perform ⟨trivial, rfl⟩) fun order =>
            apart_sendGroups (fun _ _ => trivial) order
        · split <;> exact Prog.only_pure _

/-! ## Operations -/

theorem updateWorkflow_sparesFlow {other : String} (h : other ≠ wfID) (us : List WorkflowUpdate) :
    (updateWorkflow other us).Only (Call.sparesFlow wfID) := by
  rw [updateWorkflow]
  split
  · exact Prog.only_pure _
  · exact only_request (c := .updateWorkflowItem other us) h

theorem nowFormatted_sparesFlow : (nowFormatted cfg).Only (Call.sparesFlow wfID) :=
  Prog.only_bind (Prog.only_perform trivial) fun _ => Prog.only_pure _

/-- Another workflow is cancelled. -/
theorem cancelWorkflow_sparesFlow {other : String} (h : other ≠ wfID) :
    (cancelWorkflow cfg other).Only (Call.sparesFlow wfID) := by
  have hjobs : ∀ ids, (cancelJobs cfg ids).Only (Call.sparesFlow wfID) := by
    intro ids
    induction ids with
    | nil => exact Prog.only_pure _
    | cons id ids ih =>
      refine Prog.only_bind (only_getJob trivial) fun a => ?_
      split
      · exact ih
      · split
        · exact ih
        · exact Prog.only_bind (apart_cancel fun _ => trivial).sparesFlow fun _ => ih
  refine Prog.only_bind (Prog.only_bind (Prog.only_bind (Prog.only_perform trivial) fun a => ?_)
    fun a => ?_) fun a => ?_
  · split <;> exact Prog.only_pure _
  · split <;> exact Prog.only_pure _
  · split
    · exact Prog.only_pure _
    · split
      · exact Prog.only_pure _
      · refine Prog.only_bind (only_request (c := .queryWorkflowJobs other) trivial) fun ids => ?_
        refine Prog.only_bind (hjobs _) fun _ => ?_
        refine Prog.only_bind nowFormatted_sparesFlow fun now => ?_
        exact Prog.only_bind (updateWorkflow_sparesFlow h _) fun _ => Prog.only_pure _

theorem registerCron_sparesFlow {lib : CronLib} {zone : String} (cronJob : CronJob) :
    (registerCron cfg lib zone cronJob).Only (Call.sparesFlow wfID) := by
  rw [registerCron]
  split
  · exact Prog.only_pure _
  · refine Prog.only_bind (Prog.only_perform trivial) fun now => ?_
    refine Prog.only_bind (only_request (c := .putCronItem _) trivial) fun a => ?_
    split <;> exact Prog.only_pure _

theorem deleteCron_sparesFlow (name : String) : (deleteCron name).Only (Call.sparesFlow wfID) := by
  refine Prog.only_bind (Prog.only_bind (Prog.only_perform trivial) fun a => ?_) fun a => ?_
  · split <;> exact Prog.only_pure _
  · split
    · exact Prog.only_pure _
    · refine Prog.only_bind (only_request (c := .deleteCronItem name) trivial) fun a => ?_
      split <;> exact Prog.only_pure _

/-- The job of a cron run belongs to no workflow. -/
theorem pushRun_sparesFlow (hid : wfID ≠ "") {lib : CronLib} {zone : String} (now : Time)
    (record : CronRecord) : (pushRun cfg lib zone now record).Only (Call.sparesFlow wfID) := by
  rw [pushRun]
  cases hjob : cronJobOf record with
  | error e => exact Prog.only_pure _
  | ok job =>
    have hwf : job.workflowID ≠ wfID := by
      rw [cronJobOf] at hjob
      split at hjob <;> cases hjob <;> exact fun h => hid h.symm
    simp only
    split
    · exact Prog.only_pure _
    · refine Prog.only_bind (push_sparesFlow hwf) fun a => ?_
      split
      · exact Prog.only_pure _
      · refine Prog.only_bind (only_request (c := .putCronInstanceItem _ _) trivial) fun a => ?_
        split
        · exact Prog.only_pure _
        · rw [finishRun]
          split
          · exact Prog.only_bind (only_request (c := .putCronItem _) trivial) fun _ => Prog.only_pure _
          · refine Prog.only_bind (only_request (c := .putCronItem _) trivial) fun a => ?_
            split <;> exact Prog.only_pure _

theorem runLocked_sparesFlow (hid : wfID ≠ "") {lib : CronLib} {zone : String} (now : Time)
    (record : CronRecord) : (runLocked cfg lib zone now record).Only (Call.sparesFlow wfID) := by
  refine Prog.only_bind ?_ fun a => ?_
  · rw [stillRunning]
    split
    · exact Prog.only_pure _
    · refine Prog.only_bind (Prog.only_bind (Prog.only_perform trivial) fun a => ?_) fun a => ?_
      · split <;> exact Prog.only_pure _
      · split
        · exact Prog.only_pure _
        · split
          · exact Prog.only_pure _
          · refine Prog.only_bind (only_getJob trivial) fun a => ?_
            split <;> exact Prog.only_pure _
  · split
    · exact Prog.only_pure _
    · rw [skipRun]
      split
      · exact Prog.only_pure _
      · refine Prog.only_bind (only_request (c := .putCronItem _) trivial) fun a => ?_
        split <;> exact Prog.only_pure _
    · exact pushRun_sparesFlow hid now record

theorem fireCron_sparesFlow (hid : wfID ≠ "") {lib : CronLib} {zone : String} (now : Time)
    (record : CronRecord) : (fireCron cfg lib zone now record).Only (Call.sparesFlow wfID) := by
  rw [fireCron]
  split
  · exact Prog.only_pure _
  · split
    · exact Prog.only_pure _
    · split
      · exact Prog.only_pure _
      · refine Prog.only_bind (Prog.only_bind (Prog.only_perform trivial) fun t => ?_) fun a => ?_
        · refine Prog.only_bind (Prog.only_perform trivial) fun a => ?_
          split <;> exact Prog.only_pure _
        · split
          · exact Prog.only_pure _
          · exact Prog.only_pure _
          · exact runLocked_sparesFlow hid now record

theorem fireCronJobs_sparesFlow (hid : wfID ≠ "") {lib : CronLib} {zone : String} :
    (fireCronJobs cfg lib zone).Only (Call.sparesFlow wfID) := by
  have hall : ∀ now records first,
      (fireAll cfg lib zone now records first).Only (Call.sparesFlow wfID) := by
    intro now records
    induction records with
    | nil => exact fun first => Prog.only_pure _
    | cons record records ih =>
      exact fun first => Prog.only_bind (fireCron_sparesFlow hid now record) fun _ => ih _
  refine Prog.only_bind (only_request (c := .scanCrons) trivial) fun a => ?_
  split
  · exact Prog.only_pure _
  · exact Prog.only_bind (Prog.only_perform trivial) fun now => hall now _ _

/-! ## Steps -/

def SystemOp.cancelsFlow (wfID : String) : SystemOp → Bool
  | .cancelWorkflow id => id = wfID
  | _ => false

/-- No client cancels the workflow or pushes a job into it. -/
def SystemLabel.leavesFlow (wfID : String) : SystemLabel → Bool
  | .op o _ => !o.cancelsFlow wfID && o.newJobs.all fun job => job.workflowID ≠ wfID
  | .env _ => true

end
end OjsSqs
