import OjsSqs.Atomic.Steps
import OjsSqs.Listing.ByState
import OjsSqs.Racing.Footprint
import OjsSqs.Text.Labelled

/-! # The index keys of a job

An item holds the state of its job four times: in the attribute, and in the keys
of two indexes. `JobToRecord` writes the keys of a new item, and
`UpdateJobState` builds them again from the creation time that a read of its own
has found. In every interleaving of the reads and the writes the keys are those
of the queue, the state and the creation time of the item; so a query of the
index for a queue and a state finds the jobs of that queue in that state. -/
namespace OjsSqs
open Calls

/-- The index keys of the item agree with its attributes. -/
structure JobRecord.Indexed (r : JobRecord) : Prop where
  gsi1pk : r.gsi1pk = gsi1pkOf r.queue
  gsi1sk : r.gsi1sk = gsi1skOf r.state r.createdAt
  gsi2pk : r.gsi2pk = gsi2pkOf r.state
  gsi2sk : r.gsi2sk = r.createdAt

/-- What the three writers of a new job put: the record, with the worker and the
handle when the job is already with a worker. -/
def newJobRecord (job : Job) (workerID : String) (receiptHandle : Option Receipt) : JobRecord :=
  { jobToRecord job with workerID := workerID, sqsReceiptHandle := receiptHandle }

theorem newJobRecord_indexed (job : Job) (workerID : String) (receiptHandle : Option Receipt) :
    (newJobRecord job workerID receiptHandle).Indexed :=
  ⟨rfl, rfl, rfl, rfl⟩

/-! No update touches the keys that the queue and the creation time give. -/

theorem JobRecord.update_gsi1pk (r : JobRecord) (s : JobState) (us : List JobUpdate)
    (sk pk : String) : (r.update s us sk pk).gsi1pk = r.gsi1pk :=
  applyUpdates_field (·.gsi1pk) (fun u _ => by cases u <;> rfl) us r

theorem JobRecord.update_gsi2sk (r : JobRecord) (s : JobState) (us : List JobUpdate)
    (sk pk : String) : (r.update s us sk pk).gsi2sk = r.gsi2sk :=
  applyUpdates_field (·.gsi2sk) (fun u _ => by cases u <;> rfl) us r

/-- An update with the keys of its state and of the creation time. -/
theorem JobRecord.Indexed.update {r : JobRecord} (h : r.Indexed) (s : JobState)
    (us : List JobUpdate) :
    (r.update s us (gsi1skOf s r.createdAt) (gsi2pkOf s)).Indexed := by
  refine ⟨?_, ?_, rfl, ?_⟩
  · rw [JobRecord.update_gsi1pk, JobRecord.update_queue, h.gsi1pk]
  · rw [JobRecord.update_createdAt]
    rfl
  · rw [JobRecord.update_gsi2sk, JobRecord.update_createdAt, h.gsi2sk]

/-! ## The writers -/

inductive JobWrite where
  | put (job : Job) (workerID : String) (receiptHandle : Option Receipt)
  | update (jobID : String) (newState : JobState) (updates : List JobUpdate)

def JobWrite.prog : JobWrite → M (Except Error Unit)
  | .put job workerID receiptHandle => putJob (newJobRecord job workerID receiptHandle)
  | .update jobID newState updates => updateJobState jobID newState updates

/-- Where a writer is; an update remembers the creation time it has read. -/
inductive Writing where
  | start
  | read (createdAt : String)
  | done
deriving DecidableEq

/-- The calls of a writer. -/
def writing (op : JobWrite) : Monitor Writing Call Answer (Except Error Unit) where
  allow s c := match op, s with
    | .put job workerID receiptHandle, .start =>
      c = .dynamo (.putJobItem (newJobRecord job workerID receiptHandle))
    | .update id _ _, .start => c = .dynamo (.getJobItem id)
    | .update id s us, .read t => c = .dynamo (.updateJobItem id s us (gsi1skOf s t) (gsi2pkOf s))
    | _, _ => False
  next _ c r := match c, r with
    | .dynamo (.getJobItem _), .ok (some record) => .read record.createdAt
    | _, _ => .done
  accept _ _ := True

theorem writing_prog (op : JobWrite) : (writing op).Conforms op.prog .start := by
  cases op with
  | put job workerID receiptHandle =>
    refine ⟨rfl, fun r => ?_⟩
    cases r <;> trivial
  | update id s us =>
    refine ⟨rfl, fun r => ?_⟩
    rcases r with e | _ | record
    · trivial
    · trivial
    · refine ⟨rfl, fun r => ?_⟩
      cases r <;> trivial

/-! ## The invariant -/

/-- What a put or an update of a job does to the jobs, when it is carried out. -/
theorem Rules.env_putsRecord {ρ : Rules} {w w' : World} {x : JobRecord}
    {r : Except AwsError Unit} (h : ρ.env (.dynamo (.putJobItem x)) w r w') :
    w'.store.jobs = w.store.jobs.insert x.id x ∨ w'.store.jobs = w.store.jobs := by
  obtain ⟨ch, s', -, he, rfl⟩ := Rules.env_dynamo h
  rcases Store.act_cases he with hr | rfl
  · exact .inl (congrArg (·.2.jobs) hr)
  · exact .inr rfl

theorem Rules.env_updatesRecord {ρ : Rules} {w w' : World} {id : String} {s : JobState}
    {us : List JobUpdate} {sk pk : String} {y : JobRecord} {r : Except AwsError Unit}
    (hy : w.store.jobs.lookup id = some y)
    (h : ρ.env (.dynamo (.updateJobItem id s us sk pk)) w r w') :
    w'.store.jobs = w.store.jobs.insert id (y.update s us sk pk) ∨
      w'.store.jobs = w.store.jobs := by
  obtain ⟨ch, s', -, he, rfl⟩ := Rules.env_dynamo h
  rcases Store.act_cases he with hr | rfl
  · refine .inl ((congrArg (·.2.jobs) hr).trans ?_)
    simp only [Store.run, hy, Option.getD_some]
  · exact .inr rfl

/-- A put writes a job that is not stored yet. -/
def FreshPut {ι : Type} (_ : List (Event ι Call Answer)) (w : World)
    (e : Event ι Call Answer) : Prop :=
  ∀ record ∈ e.call.putRecord, w.store.jobs.lookup record.id = none

instance {ι : Type} (tr : List (Event ι Call Answer)) (w : World) (e : Event ι Call Answer) :
    Decidable (FreshPut tr w e) :=
  inferInstanceAs (Decidable (∀ record ∈ e.call.putRecord, _))

/-- Every item has its keys, and what an update has read is still so. -/
structure KeysKept {ι : Type} (op : ι → JobWrite) (w : World) (t : ι → Writing) : Prop where
  indexed : ∀ id r, w.store.jobs.lookup id = some r → r.Indexed
  read : ∀ i createdAt, t i = .read createdAt → ∃ id s us r, op i = .update id s us ∧
    w.store.jobs.lookup id = some r ∧ r.createdAt = createdAt

section
variable {ι : Type} [DecidableEq ι] {ρ : Rules} {op : ι → JobWrite} {w w' : World}
  {t : ι → Writing} {i : ι}

/-- A writer that has come to its end, and the jobs as they were. -/
theorem KeysKept.quiet (h : KeysKept op w t) (hj : w'.store.jobs = w.store.jobs) :
    KeysKept op w' (Function.update t i .done) := by
  refine ⟨fun id r hr => h.indexed id r (hj ▸ hr), fun j createdAt hread => ?_⟩
  by_cases hji : j = i
  · rw [hji, Function.update_self] at hread
    cases hread
  · rw [Function.update_of_ne hji] at hread
    rw [hj]
    exact h.read j createdAt hread

/-- A record is written that has its keys, over one with its creation time or
where there was none. -/
theorem KeysKept.write (h : KeysKept op w t) {id : String} {y : JobRecord} (hy : y.Indexed)
    (hj : w'.store.jobs = w.store.jobs.insert id y)
    (hold : ∀ x, w.store.jobs.lookup id = some x → y.createdAt = x.createdAt) :
    KeysKept op w' (Function.update t i .done) := by
  refine ⟨fun k r hr => ?_, fun j createdAt hread => ?_⟩
  · rw [hj] at hr
    by_cases hk : k = id
    · rw [hk, AList.lookup_insert, Option.some.injEq] at hr
      exact hr ▸ hy
    · rw [AList.lookup_insert_ne hk] at hr
      exact h.indexed k r hr
  · by_cases hji : j = i
    · rw [hji, Function.update_self] at hread
      cases hread
    · rw [Function.update_of_ne hji] at hread
      obtain ⟨k, s, us, r, hop, hr, ht⟩ := h.read j createdAt hread
      by_cases hk : k = id
      · subst hk
        exact ⟨k, s, us, y, hop, by rw [hj, AList.lookup_insert], (hold r hr).trans ht⟩
      · exact ⟨k, s, us, r, hop, by rw [hj, AList.lookup_insert_ne hk, hr], ht⟩

/-- An update has read the item. -/
theorem KeysKept.find (h : KeysKept op w t) {id : String} {s : JobState} {us : List JobUpdate}
    (hop : op i = .update id s us) {r : Except AwsError (Option JobRecord)}
    (he : ρ.env (.dynamo (.getJobItem id)) w r w') :
    KeysKept op w' (Function.update t i ((writing (op i)).next (t i) (.dynamo (.getJobItem id)) r)) := by
  have hj : w'.store.jobs = w.store.jobs := by
    refine Rules.env_frame (fun s => s.jobs) (fun d hd => ?_) he
    cases hd
    rfl
  rcases r with e | _ | y
  · exact h.quiet hj
  · exact h.quiet hj
  · have hy : w.store.jobs.lookup id = some y := by
      have hrun := Rules.env_ok rfl he
      exact (Except.ok.inj (congrArg Prod.fst hrun)).symm
    refine ⟨fun k r hr => h.indexed k r (hj ▸ hr), fun j createdAt hread => ?_⟩
    rw [hj]
    by_cases hji : j = i
    · subst hji
      rw [Function.update_self] at hread
      exact ⟨id, s, us, y, hop, hy, Writing.read.inj hread⟩
    · rw [Function.update_of_ne hji] at hread
      exact h.read j createdAt hread

/-- One call of a writer. -/
theorem KeysKept.next (h : KeysKept op w t) {c : Call} {r : Answer c}
    (hc : (writing (op i)).allow (t i) c) (he : ρ.env c w r w')
    (hfresh : ∀ record ∈ c.putRecord, w.store.jobs.lookup record.id = none) :
    KeysKept op w' (Function.update t i ((writing (op i)).next (t i) c r)) := by
  cases hop : op i with
  | put job workerID receiptHandle =>
    cases ht : t i with
    | start =>
      rw [hop, ht] at hc
      obtain rfl : c = _ := hc
      rcases Rules.env_putsRecord he with hj | hj
      · refine h.write (newJobRecord_indexed job workerID receiptHandle) hj fun x hx => ?_
        rw [hfresh _ rfl] at hx
        cases hx
      · exact h.quiet hj
    | read | done =>
      rw [hop, ht] at hc
      exact hc.elim
  | update id s us =>
    cases ht : t i with
    | start =>
      rw [hop, ht] at hc
      obtain rfl : c = _ := hc
      rw [← hop, ← ht]
      exact h.find hop he
    | read createdAt =>
      rw [hop, ht] at hc
      obtain rfl : c = _ := hc
      obtain ⟨_, _, _, y, hop', hy, rfl⟩ := h.read i createdAt ht
      obtain ⟨rfl, rfl, rfl⟩ := JobWrite.update.inj (hop.symm.trans hop')
      rcases Rules.env_updatesRecord hy he with hj | hj
      · refine h.write ((h.indexed id y hy).update s us) hj fun x hx => ?_
        rw [hy, Option.some.injEq] at hx
        rw [JobRecord.update_createdAt, hx]
      · exact h.quiet hj
    | done =>
      rw [hop, ht] at hc
      exact hc.elim

end

/-! ## What the index counts -/

/-- The job items of the store. -/
def Store.jobItems (s : Store) : List JobRecord := s.jobs.entries.map (·.2)

theorem Store.mem_jobItems {s : Store} {r : JobRecord} (hr : r ∈ s.jobItems) :
    ∃ id, s.jobs.lookup id = some r := by
  obtain ⟨⟨id, r'⟩, he, rfl⟩ := List.mem_map.mp hr
  exact ⟨id, AList.mem_lookup_iff.mpr he⟩

theorem JobState.separator_notMem (s : JobState) : '#' ∉ s.name.toList := by
  cases s <;> decide

/-- The sort key of a job begins with a state when that is the state of the job. -/
theorem statePrefix_iff (s s' : JobState) (createdAt : String) :
    ("STATE#" ++ s.name ++ "#").toList.isPrefixOf (gsi1skOf s' createdAt).toList ↔ s' = s := by
  have hprefix : ("STATE#" ++ s.name ++ "#").toList = "STATE#".toList ++ (s.name.toList ++ ['#']) := by
    rw [String.toList_append, String.toList_append, List.append_assoc]
    rfl
  have hkey : (gsi1skOf s' createdAt).toList =
      "STATE#".toList ++ (s'.name.toList ++ '#' :: createdAt.toList) := by
    rw [gsi1skOf, String.toList_append, String.toList_append, String.toList_append,
      List.append_assoc, List.append_assoc]
    rfl
  rw [List.isPrefixOf_iff_prefix, hprefix, hkey, List.prefix_append_right_inj,
    Text.begins_separator s.separator_notMem s'.separator_notMem, String.toList_inj]
  exact ⟨fun h => (JobState.name_injective h).symm, fun h => by rw [h]⟩

/-- On a table of one page. -/
theorem countJobs_of_indexed {table : List TableItem}
    (hindexed : ∀ r ∈ jobRecords table, r.Indexed) {s : Split} (hpage : table.length ≤ s.size 0 + 1)
    (queue : String) (state : JobState) :
    Paged.countJobsByQueueAndState s queue state.name table =
      (jobRecords table).countP fun r => r.queue = queue ∧ r.state = state := by
  have hlen : (gsi1 (gsi1pkOf queue) ("STATE#" ++ state.name ++ "#") table).length ≤ s.size 0 + 1 := by
    rw [gsi1, List.length_insertionSort]
    exact (List.length_filter_le _ _).trans ((List.length_filterMap_le _ _).trans hpage)
  rw [Paged.countJobsByQueueAndState, (s.length_first none _).mpr]
  · rw [gsi1, List.length_insertionSort, List.countP_eq_length_filter]
    refine congrArg List.length (List.filter_congr fun r hr => decide_eq_decide.mpr ?_)
    have hi := hindexed r hr
    rw [hi.gsi1pk, hi.gsi1sk, statePrefix_iff, gsi1pkOf, gsi1pkOf, String.append_right_inj]
  · simp only [Split.stop]
    omega

/-- **The index keys.** In every run of writers of new jobs and of updates, in
any order of their reads and writes, every item has the index keys of its queue,
state and creation time, and on a table of one page the count of a queue and a
state is the number of its jobs. -/
theorem index_keys_agree {ι : Type} [DecidableEq ι] {ρ : Rules} {op : ι → JobWrite}
    {tr : List (Event ι Call Answer)} {P P' : Pool ι World Call Answer (Except Error Unit)}
    (hempty : P.world.store.jobs = ∅) (hP : ∀ i, P.thread i = (op i).prog)
    (hr : Pool.Run ρ.env FreshPut P tr P') :
    (∀ r ∈ P'.world.store.jobItems, r.Indexed) ∧
      ∀ (s : Split) (table : List TableItem), (jobRecords table).Perm P'.world.store.jobItems →
        table.length ≤ s.size 0 + 1 → ∀ (queue : String) (state : JobState),
          Paged.countJobsByQueueAndState s queue state.name table =
            P'.world.store.jobItems.countP fun r => r.queue = queue ∧ r.state = state := by
  have hconf : ∀ i, (writing (op i)).Conforms (P.thread i) .start := fun i => by
    rw [hP i]
    exact writing_prog (op i)
  have h0 : KeysKept op P.world fun _ => .start :=
    ⟨fun id r hr => (by rw [hempty] at hr; cases hr), fun _ _ h => (by cases h)⟩
  obtain ⟨hI, -⟩ := hr.invariant (m := fun i => writing (op i)) (s := fun _ => .start)
    (fun _ w t => KeysKept op w t) hconf h0 fun _ _ _ _ _ _ _ hI ha he hok => hI.next ha he hok
  have hindexed : ∀ r ∈ P'.world.store.jobItems, r.Indexed := fun r hr => by
    obtain ⟨id, hid⟩ := Store.mem_jobItems hr
    exact hI.indexed id r hid
  refine ⟨hindexed, fun s table hperm hpage queue state => ?_⟩
  rw [countJobs_of_indexed (fun r hr => hindexed r (hperm.subset hr)) hpage, hperm.countP_eq]

/-- A job in a queue with a separator in its name, and two updates of it. -/
def jobWrites (i : Fin 3) : JobWrite :=
  if i = 0 then .put { demoJob with queue := "a#b", createdAt := "t0" } "" none
  else if i = 1 then .update "j1" .active [.startedAt "t1"]
  else .update "j1" .completed [.completedAt "t2"]

/-- Both updates read the item before either of them writes. -/
theorem index_keys_agree_interleaved : ∃ P' : Pool (Fin 3) World Call Answer (Except Error Unit),
    (∀ r ∈ P'.world.store.jobItems, r.Indexed) ∧
      Paged.countJobsByQueueAndState ⟨fun _ => 0, false⟩ "a#b" "active"
        (P'.world.store.jobItems.map .job) = 1 := by
  have hrun : ∃ out, Pool.script (Rules.act {}) FreshPut []
      [(0, .ok), (1, .ok), (2, .ok), (2, .ok), (1, .ok)]
      (⟨{}, fun i => (jobWrites i).prog⟩ : Pool (Fin 3) World Call Answer (Except Error Unit)) =
        some out ∧ out.2.world.store.jobItems.map (fun r => (r.queue, r.state)) = [("a#b", .active)] :=
    ⟨_, rfl, rfl⟩
  obtain ⟨⟨tr, P'⟩, hscript, hjobs⟩ := hrun
  obtain ⟨hindexed, hcount⟩ := index_keys_agree rfl (fun _ => rfl) (Pool.script_run _ .start hscript)
  refine ⟨P', hindexed, ?_⟩
  obtain ⟨r, hr, hqs⟩ := List.map_eq_singleton_iff.mp hjobs
  obtain ⟨hq, hs⟩ := Prod.mk.inj hqs
  rw [hr] at hcount ⊢
  refine (hcount ⟨fun _ => 0, false⟩ [.job r] (List.Perm.refl _) (Nat.le_refl 1) "a#b" .active).trans ?_
  rw [List.countP_singleton, if_pos (decide_eq_true ⟨hq, hs⟩)]

end OjsSqs
