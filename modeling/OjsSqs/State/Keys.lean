import OjsSqs.State.Expression
import OjsSqs.State.Store
import OjsSqs.Text.Labelled
import Mathlib.Logic.Function.Basic

/-! # The keys of the table

All items are in one table, and a partition key and a sort key, both texts put
together from constants and from identifiers, tell them apart. An identifier may
hold the separator. The model keeps one table for each kind of item; that is the
same because no two items have the same keys. -/
namespace OjsSqs

/-- What an item is about. -/
inductive Entity where
  | job (jobID : String)
  | workflow (id : String)
  | workflowJob (workflowID jobID : String)
  | workflowResult (workflowID : String) (stepIdx : Int)
  | queue (name : String)
  | uniqueKey (fingerprint : String)
  | cron (name : String)
  | cronInstance (name : String)
  | cronLock (name : String) (timestamp : Int)
  | worker (workerID : String)
  | deadLetter (jobID : String)
  | due (index : DueIndex) (jobID : String)
deriving DecidableEq

/-- `PK` and `SK` -/
structure ItemKey where
  pk : String
  sk : String
deriving DecidableEq, Repr

/-- The constant of the markers of an index. -/
def DueIndex.label : DueIndex → String
  | .scheduled => "SCHEDULED"
  | .retry => "RETRY"

def Entity.key : Entity → ItemKey
  | .job jobID => ⟨jobID, "JOB"⟩
  | .workflow id => ⟨id, "WORKFLOW"⟩
  | .workflowJob workflowID jobID => ⟨workflowID, "JOB#" ++ jobID⟩
  | .workflowResult workflowID stepIdx => ⟨workflowID, "RESULT#" ++ toString stepIdx⟩
  | .queue name => ⟨"QUEUE#" ++ name, "META"⟩
  | .uniqueKey fingerprint => ⟨"UNIQUE#" ++ fingerprint, "UNIQUE"⟩
  | .cron name => ⟨"CRON#" ++ name, "CRON"⟩
  | .cronInstance name => ⟨"CRON_INSTANCE#" ++ name, "INSTANCE"⟩
  | .cronLock name timestamp => ⟨"CRON_LOCK#" ++ name ++ "#" ++ toString timestamp, "LOCK"⟩
  | .worker workerID => ⟨"WORKER#" ++ workerID, "WORKER"⟩
  | .deadLetter jobID => ⟨"DLQ#" ++ jobID, "DLQ"⟩
  | .due index jobID => ⟨index.label ++ "#" ++ jobID, index.label⟩

/-! ## Whole numbers in decimal -/

theorem toString_neg (n : Nat) : toString (Int.negSucc n) = "-" ++ toString (n + 1) := rfl

/-- The digits of a number are none of the other characters. -/
theorem notMem_toString {c : Char} (hc : c.isDigit = false) (n : Nat) : c ∉ (toString n).toList := by
  intro h
  have hd : c ∈ Nat.toDigits 10 n := by
    rw [← Nat.toList_repr]
    exact h
  rw [Nat.isDigit_of_mem_toDigits (by decide) (by decide) hd] at hc
  cases hc

theorem separator_notMem_toString (n : Int) : '#' ∉ (toString n).toList := by
  cases n with
  | ofNat n => exact notMem_toString rfl n
  | negSucc n =>
    rw [toString_neg, String.toList_append, List.mem_append]
    rintro (h | h)
    · exact absurd h (by decide)
    · exact notMem_toString rfl _ h

theorem toString_int_injective {m n : Int} (h : toString m = toString n) : m = n := by
  -- only the text of a negative number holds a sign
  have hsign : ∀ (m n : Nat), toString (m : Int) ≠ toString (Int.negSucc n) := by
    intro m n h
    have hmem : '-' ∈ (toString (Int.negSucc n)).toList := by
      rw [toString_neg, String.toList_append]
      exact List.mem_append_left _ (by decide)
    rw [← h] at hmem
    exact notMem_toString rfl m hmem
  cases m with
  | ofNat m =>
    cases n with
    | ofNat n => exact congrArg Int.ofNat (toString_injective h)
    | negSucc n => exact absurd h (hsign m n)
  | negSucc m =>
    cases n with
    | ofNat n => exact absurd h.symm (hsign n m)
    | negSucc n =>
      rw [toString_neg, toString_neg, String.append_right_inj] at h
      exact congrArg Int.negSucc (Nat.succ.inj (toString_injective h))

/-! ## What the sort key tells -/

/-- The kinds of items. -/
inductive Kind where
  | job | workflow | workflowJob | workflowResult | queue | uniqueKey | cron | cronInstance
  | cronLock | worker | deadLetter | due (index : DueIndex)
deriving DecidableEq

def Entity.kind : Entity → Kind
  | .job _ => .job
  | .workflow _ => .workflow
  | .workflowJob _ _ => .workflowJob
  | .workflowResult _ _ => .workflowResult
  | .queue _ => .queue
  | .uniqueKey _ => .uniqueKey
  | .cron _ => .cron
  | .cronInstance _ => .cronInstance
  | .cronLock _ _ => .cronLock
  | .worker _ => .worker
  | .deadLetter _ => .deadLetter
  | .due index _ => .due index

/-- `begins_with` -/
def beginsWith (s start : String) : Bool := start.toList.isPrefixOf s.toList

theorem beginsWith_append (start s : String) : beginsWith (start ++ s) start = true := by
  rw [beginsWith, List.isPrefixOf_iff_prefix, String.toList_append]
  exact List.prefix_append _ _

/-- The kind of the items with a sort key. -/
def kindOf (sk : String) : Option Kind :=
  if beginsWith sk "JOB#" then some .workflowJob
  else if beginsWith sk "RESULT#" then some .workflowResult
  else if sk = "JOB" then some .job
  else if sk = "WORKFLOW" then some .workflow
  else if sk = "META" then some .queue
  else if sk = "UNIQUE" then some .uniqueKey
  else if sk = "CRON" then some .cron
  else if sk = "INSTANCE" then some .cronInstance
  else if sk = "LOCK" then some .cronLock
  else if sk = "WORKER" then some .worker
  else if sk = "DLQ" then some .deadLetter
  else if sk = "SCHEDULED" then some (.due .scheduled)
  else if sk = "RETRY" then some (.due .retry)
  else none

theorem kindOf_key (e : Entity) : kindOf e.key.sk = some e.kind := by
  cases e with
  | workflowJob workflowID jobID => rw [Entity.key, kindOf, beginsWith_append, if_pos rfl, Entity.kind]
  | workflowResult workflowID stepIdx =>
    have hjob : beginsWith ("RESULT#" ++ toString stepIdx) "JOB#" = false := by
      rw [beginsWith, String.toList_append]
      rfl
    rw [Entity.key, kindOf, hjob, if_neg Bool.false_ne_true, beginsWith_append, if_pos rfl,
      Entity.kind]
  | due index jobID =>
    cases index <;> simp only [Entity.key, Entity.kind, DueIndex.label] <;> decide
  | _ =>
    simp only [Entity.key, Entity.kind]
    decide

theorem Entity.kind_eq {e e' : Entity} (h : e.key.sk = e'.key.sk) : e.kind = e'.kind := by
  have hk := kindOf_key e
  rw [h, kindOf_key] at hk
  exact (Option.some.inj hk).symm

/-! ## No two items have the same keys -/

/-- The name and the timestamp of a lock: no timestamp holds the separator. -/
theorem lockKey_injective {name name' : String} {ts ts' : Int}
    (h : "CRON_LOCK#" ++ name ++ "#" ++ toString ts = "CRON_LOCK#" ++ name' ++ "#" ++ toString ts') :
    name = name' ∧ ts = ts' := by
  have hl := congrArg String.toList h
  simp only [String.toList_append, List.append_assoc] at hl
  obtain ⟨hname, hts⟩ := Text.last_separator (separator_notMem_toString ts)
    (separator_notMem_toString ts') (List.append_cancel_left hl)
  exact ⟨String.toList_injective hname, toString_int_injective (String.toList_injective hts)⟩

theorem Entity.key_injective : Function.Injective Entity.key := by
  intro e e' h
  have hkind := Entity.kind_eq (congrArg ItemKey.sk h)
  cases e with
  | workflowJob workflowID jobID =>
    cases e' <;> cases hkind
    simp only [Entity.key, ItemKey.mk.injEq, String.append_right_inj] at h
    rw [h.1, h.2]
  | workflowResult workflowID stepIdx =>
    cases e' <;> cases hkind
    simp only [Entity.key, ItemKey.mk.injEq, String.append_right_inj] at h
    rw [h.1, toString_int_injective h.2]
  | cronLock name timestamp =>
    cases e' <;> cases hkind
    simp only [Entity.key, ItemKey.mk.injEq] at h
    obtain ⟨hname, htimestamp⟩ := lockKey_injective h.1
    rw [hname, htimestamp]
  | _ =>
    cases e' <;> cases hkind
    simp only [Entity.key, ItemKey.mk.injEq, String.append_right_inj, and_true] at h
    rw [h]

/-! ## The filters -/

/-- `ListQueues`, a scan with a filter. -/
def listQueuesFilter (k : ItemKey) : Bool := beginsWith k.pk "QUEUE#" && k.sk = "META"

/-- `ListCrons` -/
def listCronsFilter (k : ItemKey) : Bool := beginsWith k.pk "CRON#" && k.sk = "CRON"

/-- `GetWorkflowJobs`, a query of one partition. -/
def getWorkflowJobsFilter (workflowID : String) (k : ItemKey) : Bool :=
  k.pk = workflowID && beginsWith k.sk "JOB#"

/-- `GetWorkflowResults` -/
def getWorkflowResultsFilter (workflowID : String) (k : ItemKey) : Bool :=
  k.pk = workflowID && beginsWith k.sk "RESULT#"

/-- `ListAllJobs` -/
def listAllJobsFilter (k : ItemKey) : Bool := k.sk = "JOB"

/-- `ListAllWorkers` -/
def listAllWorkersFilter (k : ItemKey) : Bool := k.sk = "WORKER"

/-- An item with a sort key of some kind is of that kind. -/
theorem Entity.kind_of_sort {e : Entity} {sk : String} {kind : Kind} (hk : kindOf sk = some kind)
    (h : e.key.sk = sk) : e.kind = kind := by
  have he := kindOf_key e
  rw [h, hk] at he
  exact (Option.some.inj he).symm

theorem Entity.kind_of_jobRow {e : Entity} (h : beginsWith e.key.sk "JOB#" = true) :
    e.kind = .workflowJob := by
  have he := kindOf_key e
  rw [kindOf, if_pos h] at he
  exact (Option.some.inj he).symm

theorem Entity.kind_of_resultRow {e : Entity} (h : beginsWith e.key.sk "RESULT#" = true) :
    e.kind = .workflowResult := by
  have hjob : ¬ beginsWith e.key.sk "JOB#" = true := by
    intro hjob
    have hkind := Entity.kind_of_jobRow hjob
    cases e <;> cases hkind
    rw [Entity.key, beginsWith, String.toList_append] at h
    cases h
  have he := kindOf_key e
  rw [kindOf, if_neg hjob, if_pos h] at he
  exact (Option.some.inj he).symm

section
variable (e : Entity) (workflowID : String)

theorem listQueuesFilter_iff : listQueuesFilter e.key = true ↔ ∃ name, e = .queue name := by
  constructor
  · intro h
    obtain ⟨-, hsk⟩ := Bool.and_eq_true_iff.mp h
    have hkind := Entity.kind_of_sort (show kindOf "META" = some .queue by decide) (of_decide_eq_true hsk)
    cases e <;> cases hkind
    exact ⟨_, rfl⟩
  · rintro ⟨name, rfl⟩
    exact Bool.and_eq_true_iff.mpr ⟨beginsWith_append _ _, decide_eq_true rfl⟩

theorem listCronsFilter_iff : listCronsFilter e.key = true ↔ ∃ name, e = .cron name := by
  constructor
  · intro h
    obtain ⟨-, hsk⟩ := Bool.and_eq_true_iff.mp h
    have hkind := Entity.kind_of_sort (show kindOf "CRON" = some .cron by decide) (of_decide_eq_true hsk)
    cases e <;> cases hkind
    exact ⟨_, rfl⟩
  · rintro ⟨name, rfl⟩
    exact Bool.and_eq_true_iff.mpr ⟨beginsWith_append _ _, decide_eq_true rfl⟩

theorem listAllJobsFilter_iff : listAllJobsFilter e.key = true ↔ ∃ jobID, e = .job jobID := by
  constructor
  · intro h
    have hkind := Entity.kind_of_sort (show kindOf "JOB" = some .job by decide) (of_decide_eq_true h)
    cases e <;> cases hkind
    exact ⟨_, rfl⟩
  · rintro ⟨jobID, rfl⟩
    exact decide_eq_true rfl

theorem listAllWorkersFilter_iff :
    listAllWorkersFilter e.key = true ↔ ∃ workerID, e = .worker workerID := by
  constructor
  · intro h
    have hkind := Entity.kind_of_sort (show kindOf "WORKER" = some .worker by decide) (of_decide_eq_true h)
    cases e <;> cases hkind
    exact ⟨_, rfl⟩
  · rintro ⟨workerID, rfl⟩
    exact decide_eq_true rfl

theorem getWorkflowJobsFilter_iff : getWorkflowJobsFilter workflowID e.key = true ↔
    ∃ jobID, e = .workflowJob workflowID jobID := by
  constructor
  · intro h
    obtain ⟨hpk, hsk⟩ := Bool.and_eq_true_iff.mp h
    have hkind := Entity.kind_of_jobRow hsk
    cases e <;> cases hkind
    obtain rfl := of_decide_eq_true hpk
    exact ⟨_, rfl⟩
  · rintro ⟨jobID, rfl⟩
    exact Bool.and_eq_true_iff.mpr ⟨decide_eq_true rfl, beginsWith_append _ _⟩

theorem getWorkflowResultsFilter_iff : getWorkflowResultsFilter workflowID e.key = true ↔
    ∃ stepIdx, e = .workflowResult workflowID stepIdx := by
  constructor
  · intro h
    obtain ⟨hpk, hsk⟩ := Bool.and_eq_true_iff.mp h
    have hkind := Entity.kind_of_resultRow hsk
    cases e <;> cases hkind
    obtain rfl := of_decide_eq_true hpk
    exact ⟨_, rfl⟩
  · rintro ⟨stepIdx, rfl⟩
    exact Bool.and_eq_true_iff.mpr ⟨decide_eq_true rfl, beginsWith_append _ _⟩

end

/-- **The keys of the table.** No two items have the same keys, whatever their
identifiers are, and each listing selects the items of its own kind. -/
theorem table_keys_apart :
    (∀ e e' : Entity, e ≠ e' → e.key ≠ e'.key) ∧ ∀ e : Entity,
      (listQueuesFilter e.key = true ↔ ∃ name, e = .queue name) ∧
      (listCronsFilter e.key = true ↔ ∃ name, e = .cron name) ∧
      (∀ workflowID, getWorkflowJobsFilter workflowID e.key = true ↔
        ∃ jobID, e = .workflowJob workflowID jobID) ∧
      (∀ workflowID, getWorkflowResultsFilter workflowID e.key = true ↔
        ∃ stepIdx, e = .workflowResult workflowID stepIdx) ∧
      (listAllJobsFilter e.key = true ↔ ∃ jobID, e = .job jobID) ∧
      (listAllWorkersFilter e.key = true ↔ ∃ workerID, e = .worker workerID) :=
  ⟨fun _ _ hne h => hne (Entity.key_injective h), fun e =>
    ⟨listQueuesFilter_iff e, listCronsFilter_iff e, getWorkflowJobsFilter_iff e,
      getWorkflowResultsFilter_iff e, listAllJobsFilter_iff e, listAllWorkersFilter_iff e⟩⟩

/-! ## One table

The tables of a `Store` as the table that the requests are made to. The items of
the workers are kept next to it. -/

/-- What an item holds. -/
inductive ItemContent where
  | job (record : JobRecord)
  | workflow (record : WorkflowRecord)
  | workflowJob
  | workflowResult (result : String)
  | queue (item : QueueItem)
  | uniqueKey (item : UniqueItem)
  | cron (record : CronRecord)
  | cronInstance (jobID : String)
  | cronLock (ttl : Int)
  | deadLetter
  | due (atMs : Int)

namespace Store

def item (s : Store) : Entity → Option ItemContent
  | .job jobID => (s.jobs.lookup jobID).map .job
  | .workflow id => (s.workflows.lookup id).map .workflow
  | .workflowJob workflowID jobID =>
    if s.workflowJobs.contains (workflowID, jobID) then some .workflowJob else none
  | .workflowResult workflowID stepIdx =>
    (s.workflowResults.lookup (workflowID, stepIdx)).map .workflowResult
  | .queue name => (s.queues.lookup name).map .queue
  | .uniqueKey fingerprint => (s.uniqueKeys.lookup fingerprint).map .uniqueKey
  | .cron name => (s.crons.lookup name).map .cron
  | .cronInstance name => (s.cronInstances.lookup name).map .cronInstance
  | .cronLock name timestamp => (s.cronLocks.lookup (name, timestamp)).map .cronLock
  | .worker _ => none
  | .deadLetter jobID => (s.deadLetters.lookup jobID).map fun _ => .deadLetter
  | .due index jobID => ((s.due index).lookup jobID).map .due

/-- The item with the keys. -/
noncomputable def table (s : Store) : ItemKey → Option ItemContent :=
  Function.extend Entity.key s.item fun _ => none

theorem table_key (s : Store) (e : Entity) : s.table e.key = s.item e :=
  Entity.key_injective.extend_apply s.item _ e

end Store

/-- The item whose keys a request carries; queries and scans carry none. -/
def DynamoCall.entity : DynamoCall → Option Entity
  | .getJobItem jobID | .updateJobItem jobID _ _ _ _ => some (.job jobID)
  | .putJobItem record => some (.job record.id)
  | .putQueueItem name | .getQueueItem name | .setPausedItem name _ | .addCompleted name =>
    some (.queue name)
  | .putUniqueItem fingerprint _ _ | .getUniqueItem fingerprint => some (.uniqueKey fingerprint)
  | .putWorkflowItem wf => some (.workflow wf.id)
  | .getWorkflowItem id | .updateWorkflowItem id _ => some (.workflow id)
  | .putWorkflowJobItem workflowID jobID => some (.workflowJob workflowID jobID)
  | .putWorkflowResultItem workflowID stepIdx _ => some (.workflowResult workflowID stepIdx)
  | .putDeadLetterItem jobID | .deleteDeadLetterItem jobID | .getDeadLetterItem jobID =>
    some (.deadLetter jobID)
  | .putDueItem index jobID _ | .deleteDueItem index jobID => some (.due index jobID)
  | .putCronItem cron => some (.cron cron.name)
  | .getCronItem name | .deleteCronItem name => some (.cron name)
  | .putCronLockItem name timestamp _ => some (.cronLock name timestamp)
  | .getCronInstanceItem name | .putCronInstanceItem name _ => some (.cronInstance name)
  | .queryWorkflowJobs _ | .queryWorkflowResults _ | .queryDue _ _ | .scanDue _ _ | .scanCrons => none

/-- The markers of an index, when those of one index are written. -/
theorem Store.lookup_setDue {s : Store} {index index' : DueIndex} {t : Table Int} {jobID : String}
    (h : index' = index → t.lookup jobID = (s.due index').lookup jobID) :
    ((s.setDue index t).due index').lookup jobID = (s.due index').lookup jobID := by
  simp only [Store.setDue]
  by_cases hi : index' = index
  · rw [← h hi, hi, Function.update_self]
  · rw [Function.update_of_ne hi]

/-- A request leaves the items alone that it does not name. -/
theorem Store.run_item {c : DynamoCall} {s : Store} {e : Entity} (h : c.entity ≠ some e) :
    (s.run c).2.item e = s.item e := by
  rw [ne_comm] at h
  cases c <;> simp only [Store.run] <;> (try split) <;> cases e <;> (try rfl) <;>
    simp only [DynamoCall.entity, ne_eq, Option.some.injEq, Entity.job.injEq, Entity.workflow.injEq,
      Entity.workflowJob.injEq, Entity.workflowResult.injEq, Entity.queue.injEq,
      Entity.uniqueKey.injEq, Entity.cron.injEq, Entity.cronInstance.injEq, Entity.cronLock.injEq,
      Entity.deadLetter.injEq, Entity.due.injEq] at h <;> simp only [item]
  case putWorkflowJobItem.workflowJob =>
    simp only [List.contains_iff_mem, List.mem_append, List.mem_filter, decide_eq_true_eq, List.mem_singleton, h,
      Prod.mk.injEq, or_false, not_false_eq_true, and_true, ne_eq]
  case putDueItem.due index id at' index' id' =>
    refine congrArg (Option.map _) (lookup_setDue fun hi => ?_)
    rw [← hi]
    exact AList.lookup_insert_ne fun hid => h ⟨hi, hid⟩
  case deleteDueItem.due index id index' id' =>
    refine congrArg (Option.map _) (lookup_setDue fun hi => ?_)
    rw [← hi]
    exact AList.lookup_erase_ne fun hid => h ⟨hi, hid⟩
  -- an insertion or an erasure under another identifier
  all_goals first
    | rw [AList.lookup_insert_ne h]
    | rw [AList.lookup_erase_ne h]
    | rw [AList.lookup_insert_ne fun hk => h (Prod.mk.inj hk)]

/-- **One table.** A request changes the item with its keys and no other. -/
theorem Store.run_table {c : DynamoCall} {s : Store} {k : ItemKey}
    (h : ∀ e, c.entity = some e → e.key ≠ k) : (s.run c).2.table k = s.table k := by
  by_cases hk : ∃ e, Entity.key e = k
  · obtain ⟨e, rfl⟩ := hk
    rw [table_key, table_key]
    exact run_item fun he => h e he rfl
  · rw [table, table, Function.extend_apply' _ _ _ hk, Function.extend_apply' _ _ _ hk]

end OjsSqs
