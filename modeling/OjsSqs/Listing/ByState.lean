import OjsSqs.Listing.Complete

/-! # The two paths of ListAllJobs

A filter for the state alone is answered from GSI2, whose order is the creation
time: the oldest jobs come first. The scan path sorts the newest first. Both cut
the slice from the front of what they have. -/
namespace OjsSqs
open Calls

/-- A slice of a list without repetitions, and the same slice from its other
end: they share the middle at most. -/
theorem slice_reverse {α : Type} {l : List α} (hl : l.Nodup) {stop offset limit : Nat}
    (hstop : stop ≤ l.length) (hlimit : 1 ≤ limit) (hlt : offset < l.length) :
    ((l.take stop).drop offset).take limit = (l.reverse.drop offset).take limit ↔
      l.length = 2 * offset + 1 ∧ (offset = 0 ∨ limit = 1) ∧ offset < stop := by
  have hleft : ∀ i, i < limit → (((l.take stop).drop offset).take limit)[i]? =
      if offset + i < stop then l[offset + i]? else none := by
    intro i hi
    rw [List.getElem?_take, if_pos hi, List.getElem?_drop, List.getElem?_take]
  have hright : ∀ i, i < limit → ((l.reverse.drop offset).take limit)[i]? =
      if offset + i < l.length then l[l.length - 1 - (offset + i)]? else none := by
    intro i hi
    rw [List.getElem?_take, if_pos hi, List.getElem?_drop]
    split
    · rename_i h
      exact List.getElem?_reverse h
    · rename_i h
      rw [List.getElem?_eq_none_iff, List.length_reverse]
      omega
  constructor
  · intro h
    -- the first elements are the same, and so are their places
    have hzero := congrArg (·[0]?) h
    simp only [hleft 0 hlimit, hright 0 hlimit, Nat.add_zero, if_pos hlt] at hzero
    have hin : offset < stop := by
      by_contra hout
      rw [if_neg hout, eq_comm, List.getElem?_eq_none_iff] at hzero
      omega
    rw [if_pos hin] at hzero
    have hplace := (List.getElem?_inj hlt hl).mp hzero
    refine ⟨by omega, ?_, hin⟩
    by_contra hboth
    have hone := congrArg (·[1]?) h
    simp only [hleft 1 (by omega), hright 1 (by omega)] at hone
    rw [if_pos (show offset + 1 < l.length by omega)] at hone
    split at hone
    · have hnext := (List.getElem?_inj (by omega) hl).mp hone
      omega
    · rw [eq_comm, List.getElem?_eq_none_iff] at hone
      omega
  · rintro ⟨hlen, hshort, hin⟩
    refine List.ext_getElem? fun i => ?_
    by_cases hi : i < limit
    · rw [hleft i hi, hright i hi]
      by_cases hzero : i = 0
      · subst hzero
        rw [if_pos (by omega), if_pos (by omega)]
        congr 1
        omega
      · rw [if_neg (by omega), if_neg (by omega)]
    · rw [List.getElem?_take, if_neg hi, List.getElem?_take, if_neg hi]

/-! ## The jobs of a state -/

/-- The index attributes of the jobs are those of their state. -/
def IndexMatches (table : List TableItem) : Prop :=
  ∀ r ∈ jobRecords table, r.gsi2pk = gsi2pkOf r.state ∧ r.gsi2sk = r.createdAt

/-- No two jobs were created at one time. -/
def DistinctTimes (table : List TableItem) : Prop :=
  ((jobRecords table).map (·.createdAt)).Nodup

instance (table : List TableItem) : Decidable (IndexMatches table) :=
  inferInstanceAs (Decidable (∀ r ∈ jobRecords table, _ ∧ _))
instance (table : List TableItem) : Decidable (DistinctTimes table) :=
  inferInstanceAs (Decidable (List.Nodup _))

/-- The jobs of a state, newest first. -/
def newestIn (state : JobState) (table : List TableItem) : List Job :=
  newestFirst (((jobRecords table).filter fun r => r.state = state).map recordToJob)

section
variable {table : List TableItem} {state : JobState}

theorem JobState.name_injective {s s' : JobState} (h : s.name = s'.name) : s = s' := by
  cases s <;> cases s' <;> first | rfl | (exact absurd h (by decide))

theorem inState_perm (hindex : IndexMatches table) :
    (inState state.name table).Perm ((jobRecords table).filter fun r => r.state = state) := by
  have hfilter : (jobRecords table).filter (fun r => r.gsi2pk = "STATE#" ++ state.name) =
      (jobRecords table).filter fun r => r.state = state := by
    refine List.filter_congr fun r hr => ?_
    rw [(hindex r hr).1, gsi2pkOf]
    refine decide_eq_decide.mpr ⟨fun h => ?_, fun h => h ▸ rfl⟩
    exact JobState.name_injective (String.append_right_inj _ |>.mp h)
  rw [inState, gsi2, hfilter]
  exact List.perm_insertionSort _ _

/-- A list sorted by a text of its items. -/
theorem pairwise_sorted {α : Type} (f : α → String) (l : List α) :
    (l.insertionSort fun a a' => f a ≤ f a').Pairwise fun a a' => f a ≤ f a' := by
  have htotal : Std.Total fun a a' : α => f a ≤ f a' := ⟨fun _ _ => le_total _ _⟩
  have htrans : IsTrans α fun a a' => f a ≤ f a' := ⟨fun _ _ _ => le_trans⟩
  exact List.pairwise_insertionSort _ l

theorem pairwise_newestFirst (l : List Job) :
    (newestFirst l).Pairwise fun job job' => job'.createdAt ≤ job.createdAt := by
  have htotal : Std.Total fun job job' : Job => job'.createdAt ≤ job.createdAt :=
    ⟨fun _ _ => le_total _ _⟩
  have htrans : IsTrans Job fun job job' => job'.createdAt ≤ job.createdAt :=
    ⟨fun _ _ _ h h' => le_trans h' h⟩
  exact List.pairwise_insertionSort _ l

theorem inState_sorted (hindex : IndexMatches table) :
    (inState state.name table).Pairwise fun r r' => r.createdAt ≤ r'.createdAt := by
  refine (pairwise_sorted JobRecord.gsi2sk _).imp_of_mem fun {r r'} hr hr' h => ?_
  have hsk : ∀ r ∈ inState state.name table, r.gsi2sk = r.createdAt := fun r hr =>
    (hindex r (List.mem_of_mem_filter ((List.mem_insertionSort _).mp hr))).2
  rw [← hsk r hr, ← hsk r' hr']
  exact h

/-- The index holds the jobs of the scan, the other way round. -/
theorem newestIn_eq (hindex : IndexMatches table) (hdistinct : DistinctTimes table) :
    newestIn state table = ((inState state.name table).map recordToJob).reverse := by
  have hperm : (newestIn state table).Perm ((inState state.name table).map recordToJob).reverse :=
    (List.perm_insertionSort _ _).trans
      (((inState_perm hindex).symm.map _).trans (List.reverse_perm _).symm)
  have hsorted : ((inState state.name table).map recordToJob).reverse.Pairwise
      fun job job' => job'.createdAt ≤ job.createdAt := by
    rw [List.pairwise_reverse, List.pairwise_map]
    exact inState_sorted hindex
  refine hperm.eq_of_pairwise ?_ (pairwise_newestFirst _) hsorted
  intro job job' hjob hjob' h h'
  have hmem : ∀ job ∈ newestIn state table, ∃ r ∈ jobRecords table, recordToJob r = job := by
    intro job hjob
    obtain ⟨r, hr, rfl⟩ := List.mem_map.mp ((List.mem_insertionSort _).mp hjob)
    exact ⟨r, List.mem_of_mem_filter hr, rfl⟩
  obtain ⟨r, hr, rfl⟩ := hmem job hjob
  obtain ⟨r', hr', rfl⟩ := hmem job' (hperm.symm.subset hjob')
  rw [List.inj_on_of_nodup_map hdistinct hr hr' (le_antisymm h' h)]

theorem inState_nodup (hindex : IndexMatches table) (hdistinct : DistinctTimes table) :
    ((inState state.name table).map recordToJob).Nodup := by
  have hcreated : ((inState state.name table).map (·.createdAt)).Nodup := by
    rw [((inState_perm hindex).map _).nodup_iff]
    exact hdistinct.sublist (List.filter_sublist.map _)
  refine List.Nodup.of_map (·.createdAt) ?_
  rw [List.map_map]
  exact hcreated

end

/-! ## The two paths -/

/-- The filter for a state alone. -/
def stateFilter (state : JobState) : JobListFilters := { state := state.name }

section
variable {table : List TableItem} {state : JobState} {limit offset : Nat}

theorem stateFilter_admits (r : JobRecord) :
    (stateFilter state).admits r = decide (r.state = state) := by
  have hname : state.name ≠ "" := by cases state <;> decide
  rw [JobListFilters.admits, stateFilter]
  simp only [hname, decide_false, Bool.false_or, decide_true, Bool.true_or, Bool.and_true]
  exact decide_eq_decide.mpr ⟨JobState.name_injective, fun h => h ▸ rfl⟩

/-- The scan path: the newest jobs first, and all of them counted. -/
theorem scanAllJobs_eq (s : Split) {fuel : Nat} (hfuel : table.length + 1 < fuel)
    (hrange : (newestIn state table).length ≤ offset ∨ offset + limit < intBound) :
    scanAllJobs s fuel (stateFilter state) limit offset table =
      some (.ok (((newestIn state table).drop offset).take limit,
        (newestIn state table).length)) := by
  have hread : s.readAll table fuel 0 = some table := s.readAll_eq table (Nat.zero_le _) (by omega)
  have hfilter : (jobRecords table).filter (stateFilter state).admits =
      (jobRecords table).filter fun r => r.state = state :=
    List.filter_congr fun r _ => stateFilter_admits r
  rw [scanAllJobs, hread, Option.map_some, hfilter]
  change some (if (((newestIn state table).length : Nat) : Int) ≤ offset then _ else _) = _
  split
  · rename_i hle
    rw [List.drop_of_length_le (Int.ofNat_le.mp hle), List.take_nil]
    rfl
  · rename_i hlt
    have hsum := hrange.resolve_left fun hle => hlt (Int.ofNat_le.mpr hle)
    change some ((goSlice (newestIn state table) offset (sliceEnd (newestIn state table).length
      limit offset)).map _) = _
    rw [goSlice_page _ (by omega) hsum]
    rfl

/-- Both paths give the slice of the jobs of the state, newest first, and count
them all. -/
def PathsAgree (s s' s'' : Split) (fuel : Nat) (state : JobState) (limit offset : Nat)
    (table : List TableItem) : Prop :=
  let slice := (((newestIn state table).drop offset).take limit, (newestIn state table).length)
  listAllJobs s s' fuel (stateFilter state) limit offset table = some (.ok slice) ∧
    scanAllJobs s'' fuel (stateFilter state) limit offset table = some (.ok slice)

theorem listAllJobs_stateFilter (s s' : Split) (fuel : Nat) :
    listAllJobs s s' fuel (stateFilter state) limit offset table =
      match Paged.listJobsByState s s' state.name limit offset table with
      | .error e => some (.error e)
      | .ok (records, total) => some (.ok (records.map recordToJob, total)) := by
  have hname : state.name ≠ "" := by cases state <;> decide
  have hstate : (stateFilter state).state = state.name := rfl
  cases hread : Paged.listJobsByState s s' state.name limit offset table with
  | error e => rw [listAllJobs, if_pos ⟨hname, rfl, rfl, rfl⟩, hstate, hread]
  | ok page => rw [listAllJobs, if_pos ⟨hname, rfl, rfl, rfl⟩, hstate, hread]

theorem length_inState_le : (inState state.name table).length ≤ table.length := by
  rw [inState, gsi2, List.length_insertionSort]
  exact (List.length_filter_le _ _).trans (List.length_filterMap_le _ _)

theorem queryLimit_lt (limit offset : Int) : queryLimit limit offset < 2147483648 := by
  have h := Int.emod_lt_of_pos (goInt (limit + offset)) (show (0 : Int) < (2 ^ 32 : Nat) by decide)
  rw [queryLimit, int32, Int.bmod_eq_emod]
  split <;> omega

/-- The jobs of a slice that the index can give. -/
def InMiddle (n limit offset : Nat) : Prop :=
  1 ≤ queryLimit limit offset ∧
    (n ≤ offset ∨
      n = 2 * offset + 1 ∧ (offset = 0 ∨ limit = 1) ∧ offset < queryLimit limit offset)

theorem InMiddle.sum_lt {n : Nat} (h : InMiddle n limit offset) (hlimit : limit < intBound) :
    n ≤ offset ∨ offset + limit < intBound := by
  have hmax := queryLimit_lt limit offset
  have hbound : 2147483648 < intBound := by decide
  refine h.2.imp_right fun ⟨_, hshort, hlt⟩ => ?_
  generalize queryLimit limit offset = L at *
  omega

theorem fastPath_eq {s s' : Split} {fuel : Nat} (hindex : IndexMatches table)
    (hdistinct : DistinctTimes table) (hone : table.length ≤ s.size 0)
    (hone' : table.length ≤ s'.size 0) (hlimit : 1 ≤ limit) (hlimit' : limit < intBound)
    (hoffset : offset < intBound) :
    listAllJobs s s' fuel (stateFilter state) limit offset table =
        some (.ok (((newestIn state table).drop offset).take limit,
          (newestIn state table).length)) ↔
      InMiddle (newestIn state table).length limit offset := by
  have hnewest : newestIn state table = ((inState state.name table).map recordToJob).reverse :=
    newestIn_eq hindex hdistinct
  have hnodup : ((inState state.name table).map recordToJob).Nodup :=
    inState_nodup hindex hdistinct
  have hlen : (newestIn state table).length = (inState state.name table).length := by
    rw [hnewest, List.length_reverse, List.length_map]
  have hle : (inState state.name table).length ≤ table.length := length_inState_le
  have htotal : (s.first none (inState state.name table)).length =
      (newestIn state table).length := by
    rw [hlen, Split.first_of_length_le (hle.trans hone)]
  -- the second response holds what the limit lets it evaluate
  have hfirst : s'.first (some (queryLimit limit offset).toNat) (inState state.name table) =
      (inState state.name table).take
        (min (newestIn state table).length (queryLimit limit offset).toNat) := by
    generalize queryLimit limit offset = L
    rw [Split.first_limited (hle.trans hone'), hlen, List.take_eq_take_iff]
    omega
  rw [listAllJobs_stateFilter]
  by_cases hL : 1 ≤ queryLimit limit offset
  · by_cases hsum : offset + limit < intBound
    · rw [InMiddle, listJobsByState_eq s hL hsum, htotal, hfirst]
      simp only [List.map_take, List.map_drop, Option.some.injEq, Except.ok.injEq, Prod.mk.injEq,
        and_true, hL, true_and]
      generalize queryLimit limit offset = L at *
      rw [hnewest, List.length_reverse]
      rw [hnewest, List.length_reverse] at hlen
      generalize (inState state.name table).map recordToJob = jobs at *
      by_cases hpast : jobs.length ≤ offset
      · have hleft : (jobs.take (min jobs.length L.toNat)).length ≤ offset := by
          rw [List.length_take]
          omega
        have hright : jobs.reverse.length ≤ offset := by rwa [List.length_reverse]
        rw [List.drop_of_length_le hleft, List.drop_of_length_le hright]
        exact iff_of_true rfl (.inl hpast)
      · rw [slice_reverse hnodup (Nat.min_le_left _ _) hlimit (Nat.not_le.mp hpast)]
        omega
    · have hlong : intBound ≤ offset + limit := Nat.not_lt.mp hsum
      rw [listJobsByState_overflow s hL hlong (by omega), htotal, hfirst, List.length_take]
      constructor
      · intro h
        by_cases hnone : min (min (newestIn state table).length (queryLimit limit offset).toNat)
            (inState state.name table).length ≤ offset
        · rw [if_pos hnone] at h
          have hslice := (Prod.mk.inj (Except.ok.inj (Option.some.inj h))).1
          rw [List.map_nil, eq_comm, List.take_eq_nil_iff, List.drop_eq_nil_iff] at hslice
          exact ⟨hL, .inl (hslice.resolve_left (by omega))⟩
        · rw [if_neg hnone] at h
          cases h
      · intro h
        have hpast := h.sum_lt hlimit' |>.resolve_right hsum
        rw [if_pos (by omega), List.drop_of_length_le hpast, List.take_nil]
        rfl
  · rw [listJobsByState_refused s s' state.name table (Int.not_le.mp hL)]
    exact ⟨fun h => (by cases h), fun h => absurd h.1 hL⟩

/-- **The two paths.** They agree when there is nothing to return, or when the
one job to return is the one in the middle. -/
theorem paths_agree {s s' s'' : Split} {fuel : Nat} (hindex : IndexMatches table)
    (hdistinct : DistinctTimes table) (hone : table.length ≤ s.size 0)
    (hone' : table.length ≤ s'.size 0) (hfuel : table.length + 1 < fuel)
    (hlimit : 1 ≤ limit) (hlimit' : limit < intBound) (hoffset : offset < intBound) :
    PathsAgree s s' s'' fuel state limit offset table ↔
      InMiddle (newestIn state table).length limit offset := by
  have hfast : listAllJobs s s' fuel (stateFilter state) limit offset table = _ ↔ _ :=
    fastPath_eq hindex hdistinct hone hone' hlimit hlimit' hoffset
  refine ⟨fun h => hfast.mp h.1, fun h => ⟨hfast.mpr h, ?_⟩⟩
  exact scanAllJobs_eq s'' hfuel (h.sum_lt hlimit')

end

/-- Two jobs that were enqueued one after the other. -/
def twoAvailable : List TableItem :=
  let job (id createdAt : String) : Job :=
    { id := id, type := "email", state := .available, queue := "default", createdAt := createdAt }
  [.job (jobToRecord (job "j1" "2024-01-01T00:00:00.000Z")),
    .job (jobToRecord (job "j2" "2024-01-02T00:00:00.000Z"))]

def largePages : Split where
  size := fun _ => 100
  trailing := false

theorem paths_agree_past_end :
    PathsAgree largePages largePages largePages 4 .available 10 2 twoAvailable :=
  (paths_agree (by decide) (by decide) (by decide) (by decide) (by decide) (by decide) (by decide)
    (by decide)).mpr ⟨by decide, .inl (by decide)⟩

/-- The index lists the older job first. -/
theorem paths_disagree :
    IndexMatches twoAvailable ∧ DistinctTimes twoAvailable ∧
      listAllJobs largePages largePages 4 (stateFilter .available) 2 0 twoAvailable ≠
        scanAllJobs largePages 4 (stateFilter .available) 2 0 twoAvailable := by
  decide +kernel

end OjsSqs
