import OjsSqs.Listing.Reads

/-! # Which reads are complete

A method that asks for one page returns all that matches exactly when nothing
that matches lies beyond the first response. Where the service stops decides
about it, and no method but `ListAllJobs` looks at the key. -/
namespace OjsSqs
open Calls

theorem goInt_of_lt {n : Nat} (h : n < intBound) : goInt n = n := by
  have h : n < 2 ^ 63 := h
  exact Int.bmod_eq_of_le (by omega) (by omega)

/-- A sum of two positive numbers that is too large becomes negative. -/
theorem goInt_of_le {n : Nat} (h : intBound ≤ n) (hlt : n < 2 * intBound) : goInt n < 0 := by
  have h : 2 ^ 63 ≤ n := h
  have hlt : n < 2 * 2 ^ 63 := hlt
  have hmod : (n : Int) % 2 ^ 64 = n := Int.emod_eq_of_lt (by omega) (by omega)
  have hcast : ((2 ^ 64 : Nat) : Int) = 2 ^ 64 := by decide
  rw [goInt, Int.bmod_eq_emod, hcast, hmod, if_pos (by omega)]
  omega

theorem int32_le (n : Nat) : int32 n ≤ n := by
  have hmod : (n : Int) % ((2 ^ 32 : Nat) : Int) ≤ n := by
    rw [← Int.natCast_emod]
    exact Int.ofNat_le.mpr (Nat.mod_le n _)
  rw [int32, Int.bmod_eq_emod]
  split <;> omega

section
variable {α : Type} (items : List α) {offset limit : Nat}

theorem goSlice_eq {lo hi : Nat} (h : lo ≤ hi) (hhi : hi ≤ items.length) :
    goSlice items lo hi = .ok ((items.take hi).drop lo) :=
  if_pos ⟨by omega, by omega, by omega⟩

theorem goSlice_negative {lo hi : Int} (h : hi < lo) :
    goSlice items lo hi = .error (.plain "slice bounds out of range") :=
  if_neg fun hb => absurd hb.2.1 (by omega)

/-- The slice of a page of results. -/
theorem goSlice_page (hlt : offset < items.length) (hsum : offset + limit < intBound) :
    goSlice items offset (sliceEnd items.length limit offset) =
      .ok ((items.drop offset).take limit) := by
  have hcast : ((offset : Int) + limit) = ((offset + limit : Nat) : Int) := (Int.natCast_add _ _).symm
  rw [sliceEnd, hcast, goInt_of_lt hsum]
  split
  · rw [goSlice_eq items (by omega) le_rfl, List.take_length, List.take_of_length_le]
    rw [List.length_drop]
    omega
  · rw [goSlice_eq items (by omega) (by omega), List.drop_take, Nat.add_sub_cancel_left]

/-- A sum that is too large makes the slice panic. -/
theorem goSlice_overflow (hsum : intBound ≤ offset + limit) (hlt : offset + limit < 2 * intBound) :
    goSlice items offset (sliceEnd items.length limit offset) =
      .error (.plain "slice bounds out of range") := by
  have hcast : ((offset : Int) + limit) = ((offset + limit : Nat) : Int) := (Int.natCast_add _ _).symm
  have hneg := goInt_of_le hsum hlt
  rw [sliceEnd, hcast, if_neg (by omega)]
  exact goSlice_negative items (by omega)

end

/-! ## Jobs by state -/

/-- The jobs of a queue and a state, and those of a state. -/
def inQueue (queue state : String) (table : List TableItem) : List JobRecord :=
  gsi1 (gsi1pkOf queue) ("STATE#" ++ state ++ "#") table
def inState (state : String) (table : List TableItem) : List JobRecord :=
  gsi2 ("STATE#" ++ state) table

section
variable (s s' : Split) (state : String) (table : List TableItem) {offset limit : Nat}

theorem listJobsByState_refused (h : queryLimit limit offset < 1) :
    Paged.listJobsByState s s' state limit offset table =
      .error (failed "failed to query jobs by state" invalidLimit) := by
  simp only [Paged.listJobsByState]
  rw [if_pos h]

variable {s' state table}

/-- Within the range of `int` the items are a slice of the first response. -/
theorem listJobsByState_eq (h : 1 ≤ queryLimit limit offset) (hsum : offset + limit < intBound) :
    Paged.listJobsByState s s' state limit offset table =
      .ok (((s'.first (some (queryLimit limit offset).toNat) (inState state table)).drop offset).take
        limit, (s.first none (inState state table)).length) := by
  simp only [Paged.listJobsByState]
  rw [if_neg (by omega), inState]
  split
  · rename_i hle
    rw [List.drop_of_length_le (by omega), List.take_nil]
  · rename_i hlt
    rw [goSlice_page _ (by omega) hsum]
    rfl

/-- Beyond the range the slice is empty, or panics. -/
theorem listJobsByState_overflow (h : 1 ≤ queryLimit limit offset)
    (hsum : intBound ≤ offset + limit) (hlt : offset + limit < 2 * intBound) :
    Paged.listJobsByState s s' state limit offset table =
      if (s'.first (some (queryLimit limit offset).toNat) (inState state table)).length ≤ offset
      then .ok ([], (s.first none (inState state table)).length)
      else .error (.plain "slice bounds out of range") := by
  simp only [Paged.listJobsByState]
  rw [if_neg (by omega), inState, goSlice_overflow _ hsum hlt]
  simp only [Int.ofNat_le]
  rfl

end

/-! ## The nine reads -/

/-- A read, with what it is asked for. -/
inductive Read where
  | listQueues
  | listCrons
  | countJobsByQueueAndState (queue state : String)
  | listJobsByState (state : String) (limit offset : Fin intBound)
  | listJobsByQueue (queue state : String) (limit : Fin intBound)
  | getWorkflowJobs (workflowID : String)
  | getWorkflowResults (workflowID : String)
  | getDueJobs (hasIndex : Bool) (index : DueIndex) (nowMs : Int)

/-- The read returns all that matches, when its first request is answered by
`s` and its second one, if it makes two, by `s'`. -/
def Read.Complete (s s' : Split) (table : List TableItem) : Read → Prop
  | .listQueues => Paged.listQueues s table = table.filterMap TableItem.queueName?
  | .listCrons => Paged.listCrons s table = table.filterMap TableItem.cron?
  | .countJobsByQueueAndState queue state =>
    Paged.countJobsByQueueAndState s queue state table = (inQueue queue state table).length
  | .listJobsByState state limit offset =>
    Paged.listJobsByState s s' state (limit : Nat) (offset : Nat) table =
      .ok (((inState state table).drop offset).take limit, (inState state table).length)
  | .listJobsByQueue queue state limit =>
    Paged.listJobsByQueue s queue state (limit : Nat) table =
      .ok ((inQueue queue state table).take limit)
  | .getWorkflowJobs workflowID =>
    Paged.getWorkflowJobs s workflowID table = workflowJobItems workflowID table
  | .getWorkflowResults workflowID =>
    Paged.getWorkflowResults s workflowID table = workflowResultItems workflowID table
  | .getDueJobs hasIndex index nowMs =>
    (Paged.getDueJobs s s' hasIndex index nowMs table).Perm
      (table.filterMap fun item => (item.due? index nowMs).map (·.1))

/-- Nothing that matches lies beyond the first response. A limit is sent as 32
bits and has to be one at least, and the end of a slice has to be an `int`. -/
def Read.FirstPageHasAll (s s' : Split) (table : List TableItem) : Read → Prop
  | .listQueues => ∀ item ∈ table.drop (s.stop none table 0), item.queueName? = none
  | .listCrons => ∀ item ∈ table.drop (s.stop none table 0), item.cron? = none
  | .countJobsByQueueAndState queue state =>
    (inQueue queue state table).length ≤ s.stop none (inQueue queue state table) 0
  | .listJobsByState state limit offset =>
    let jobs := inState state table
    jobs.length ≤ s.stop none jobs 0 ∧ 1 ≤ queryLimit (limit : Nat) (offset : Nat) ∧
      (jobs.length ≤ offset ∨ (limit : Nat) = 0 ∨ (offset + limit : Nat) < intBound ∧
        min jobs.length (offset + limit) ≤
          s'.stop (some (queryLimit (limit : Nat) (offset : Nat)).toNat) jobs 0)
  | .listJobsByQueue queue state limit =>
    let jobs := inQueue queue state table
    1 ≤ int32 (limit : Nat) ∧
      min jobs.length limit ≤ s.stop (some (int32 (limit : Nat)).toNat) jobs 0
  | .getWorkflowJobs workflowID =>
    (workflowJobItems workflowID table).length ≤ s.stop none (workflowJobItems workflowID table) 0
  | .getWorkflowResults workflowID =>
    (workflowResultItems workflowID table).length ≤
      s.stop none (workflowResultItems workflowID table) 0
  | .getDueJobs true index nowMs =>
    (gsi3 index nowMs table).length ≤ s.stop none (gsi3 index nowMs table) 0
  | .getDueJobs false index nowMs =>
    ∀ item ∈ table.drop (s'.stop none table 0), item.due? index nowMs = none

section
variable {s s' : Split} {table : List TableItem}

theorem first_all {α : Type} {items : List α} : s.first none items = items ↔
    items.length ≤ s.stop none items 0 := by
  rw [← Split.length_first, Split.first_eq]
  refine ⟨fun h => congrArg List.length h, fun h => List.take_of_length_le ?_⟩
  rw [List.length_take] at h
  omega

theorem listJobsByState_complete (state : String) (limit offset : Fin intBound) :
    (Read.listJobsByState state limit offset).Complete s s' table ↔
      (Read.listJobsByState state limit offset).FirstPageHasAll s s' table := by
  have hlimit := limit.isLt
  have hoffset := offset.isLt
  simp only [Read.Complete, Read.FirstPageHasAll]
  generalize (limit : Nat) = limit at hlimit
  generalize (offset : Nat) = offset at hoffset
  by_cases hL : 1 ≤ queryLimit limit offset
  · by_cases hsum : offset + limit < intBound
    · rw [listJobsByState_eq s hL hsum, Except.ok.injEq, Prod.mk.injEq, Split.slice_first,
        Split.length_first]
      exact ⟨fun h => ⟨h.2, hL, h.1.imp_right (Or.imp_right fun h => ⟨hsum, h⟩)⟩,
        fun h => ⟨h.2.2.imp_right (Or.imp_right And.right), h.1⟩⟩
    · have hlong : intBound ≤ offset + limit := by omega
      rw [listJobsByState_overflow s hL hlong (by omega)]
      constructor
      · intro h
        split at h
        · obtain ⟨hslice, htotal⟩ := Prod.mk.inj (Except.ok.inj h)
          rw [eq_comm, List.take_eq_nil_iff, List.drop_eq_nil_iff] at hslice
          rw [s.length_first none] at htotal
          exact ⟨htotal, hL, hslice.symm.imp_right .inl⟩
        · cases h
      · rintro ⟨htotal, -, hpast | hzero | ⟨hshort, -⟩⟩
        · have hle : (s'.first (some (queryLimit limit offset).toNat)
              (inState state table)).length ≤ offset := by
            rw [Split.first_eq, List.length_take]
            omega
          rw [if_pos hle, List.drop_of_length_le hpast, List.take_nil]
          exact congrArg (fun n => Except.ok ([], n)) ((s.length_first none _).mpr htotal)
        · omega
        · omega
  · rw [listJobsByState_refused s s' state table (by omega)]
    exact ⟨fun h => (by cases h), fun h => absurd h.2.1 hL⟩

theorem listJobsByQueue_complete (queue state : String) (limit : Fin intBound) :
    (Read.listJobsByQueue queue state limit).Complete s s' table ↔
      (Read.listJobsByQueue queue state limit).FirstPageHasAll s s' table := by
  simp only [Read.Complete, Read.FirstPageHasAll, Paged.listJobsByQueue]
  by_cases hL : int32 (limit : Nat) < 1
  · rw [if_pos hL]
    exact ⟨fun h => (by cases h), fun h => absurd h.1 (by omega)⟩
  · rw [if_neg hL, Except.ok.injEq]
    have hL : 1 ≤ int32 (limit : Nat) := by omega
    change s.first _ (inQueue queue state table) = _ ↔ _
    generalize inQueue queue state table = jobs
    -- the response stops at the limit at the latest
    have hstop : s.stop (some (int32 (limit : Nat)).toNat) jobs 0 ≤ min jobs.length limit := by
      have hle := int32_le limit
      simp only [Split.stop]
      omega
    rw [Split.first_eq, List.take_eq_take_iff]
    exact ⟨fun h => ⟨hL, by omega⟩, fun h => by omega⟩

theorem getDueJobs_complete (hasIndex : Bool) (index : DueIndex) (nowMs : Int) :
    (Read.getDueJobs hasIndex index nowMs).Complete s s' table ↔
      (Read.getDueJobs hasIndex index nowMs).FirstPageHasAll s s' table := by
  have hall : (gsi3 index nowMs table).map (·.1) |>.Perm
      (table.filterMap fun item => (item.due? index nowMs).map (·.1)) := by
    rw [← List.map_filterMap]
    exact (List.perm_insertionSort _ _).map _
  cases hasIndex with
  | true =>
    refine Iff.trans ⟨fun h => ?_, fun h => ?_⟩ (s.length_first none (gsi3 index nowMs table))
    · have hlen := (h.trans hall.symm).length_eq
      rw [List.length_map] at hlen
      exact (List.length_map _).symm.trans hlen
    · have hfirst := first_all.mpr ((s.length_first none _).mp h)
      have hsame : Paged.getDueJobs s s' true index nowMs table = (gsi3 index nowMs table).map (·.1) :=
        congrArg (List.map Prod.fst) hfirst
      rw [Read.Complete, hsame]
      exact hall
  | false =>
    have hdue : ∀ item : TableItem, (item.due? index nowMs).map (·.1) = none ↔
        item.due? index nowMs = none := fun item => Option.map_eq_none_iff
    have hscan := s'.filterMap_first none table fun item => (item.due? index nowMs).map (·.1)
    simp only [hdue] at hscan
    refine Iff.trans ⟨fun h => ?_, fun h => ?_⟩ hscan
    · -- the first response is a prefix, so that its length decides
      have hsplit := s'.filterMap_split none table fun item => (item.due? index nowMs).map (·.1)
      have hlen := h.length_eq
      rw [hsplit, List.length_append] at hlen
      have hnil := List.length_eq_zero_iff.mp (Nat.left_eq_add.mp hlen)
      rw [hsplit, hnil, List.append_nil]
    · exact .of_eq h

/-- **Listing and counting.** -/
theorem reads_complete (read : Read) :
    read.Complete s s' table ↔ read.FirstPageHasAll s s' table := by
  cases read with
  | listQueues => exact s.filterMap_first none table _
  | listCrons => exact s.filterMap_first none table _
  | countJobsByQueueAndState queue state => exact s.length_first none _
  | listJobsByState state limit offset => exact listJobsByState_complete state limit offset
  | listJobsByQueue queue state limit => exact listJobsByQueue_complete queue state limit
  | getWorkflowJobs workflowID => exact first_all
  | getWorkflowResults workflowID => exact first_all
  | getDueJobs hasIndex index nowMs => exact getDueJobs_complete hasIndex index nowMs

end

/-- A table of two queues whose scan is answered one item at a time. -/
theorem listQueues_incomplete :
    let s : Split := { size := fun _ => 0, trailing := false }
    let table := [TableItem.queue { name := some "default" }, .queue { name := some "email" }]
    Paged.listQueues s table = ["default"] ∧ ¬ Read.listQueues.Complete s s table := by
  simp only [Read.Complete]
  decide

end OjsSqs
