import OjsSqs.Listing.ByState

/-! # Paging through the dead letter set

`ListDeadLetter` takes a page of the discarded jobs and drops those that are not
in the dead letter set. The page and its total are counted before. -/
namespace OjsSqs
open Calls

/-- `ListDeadLetter`; `dead` holds the markers of the dead letter set. -/
def listDeadLetter (s s' : Split) (dead : Table Unit) (limit offset : Int) (table : List TableItem) :
    Except Error (List Job × Nat) :=
  (Paged.listJobsByState s s' JobState.discarded.name limit offset table).map fun page =>
    ((page.1.filter fun r => (dead.lookup r.id).isSome).map recordToJob, page.2)

/-- How many pages of a size there are, one at least. -/
def pageCount (size limit : Nat) : Nat := max 1 ((size + limit - 1) / limit)

/-- The pages give every job of the dead letter set once and nothing else, they
are full before the last one, and each total is the size of the set. -/
structure ListsAll (pages : Nat → Except Error (List Job × Nat)) (dead : Table Unit) (limit : Nat)
    (contents : Nat → List Job) : Prop where
  pages : ∀ k < pageCount dead.keys.length limit, pages k = .ok (contents k, dead.keys.length)
  full : ∀ k, k + 1 < pageCount dead.keys.length limit → (contents k).length = limit
  once : (((List.range (pageCount dead.keys.length limit)).flatMap contents).map (·.id)).Perm dead.keys

/-- The discarded jobs, as the index lists them. -/
def discardedJobs (table : List TableItem) : List JobRecord := inState JobState.discarded.name table

/-- All discarded jobs are dead letters and the other way round, and the end of
every page can be sent as 32 bits. -/
structure AllDead (dead : Table Unit) (limit : Nat) (table : List TableItem) : Prop where
  same : ((discardedJobs table).map (·.id)).Perm dead.keys
  sent : ∀ k < pageCount dead.keys.length limit,
    ((max 1 (min dead.keys.length (limit * (k + 1))) : Nat) : Int) ≤ queryLimit limit (limit * k : Nat)

section
variable {s s' : Split} {dead : Table Unit} {table : List TableItem} {limit offset : Nat}

/-- One page, when the index is answered in one response. -/
theorem listDeadLetter_eq (hone : table.length ≤ s.size 0) (hone' : table.length ≤ s'.size 0)
    (hL : 1 ≤ queryLimit limit offset) (hsum : offset + limit < intBound) :
    listDeadLetter s s' dead limit offset table =
      .ok ((((((discardedJobs table).take (queryLimit limit offset).toNat).drop offset).take
        limit).filter fun r => (dead.lookup r.id).isSome).map recordToJob,
        (discardedJobs table).length) := by
  have hle : (inState JobState.discarded.name table).length ≤ table.length := length_inState_le
  rw [listDeadLetter, listJobsByState_eq s hL hsum, Split.first_of_length_le (hle.trans hone),
    Split.first_limited (hle.trans hone')]
  rfl

theorem listDeadLetter_refused (h : queryLimit limit offset < 1) :
    ∃ e, listDeadLetter s s' dead limit offset table = .error e := by
  refine ⟨failed "failed to query jobs by state" invalidLimit, ?_⟩
  rw [listDeadLetter, listJobsByState_refused s s' _ table h]
  rfl

/-- What a page that is answered holds at most. -/
theorem listDeadLetter_bound (hone : table.length ≤ s.size 0) (hone' : table.length ≤ s'.size 0)
    (hlimit : limit < intBound) (hoffset : offset < intBound) {jobs : List Job} {total : Nat}
    (h : listDeadLetter s s' dead limit offset table = .ok (jobs, total)) :
    1 ≤ queryLimit limit offset ∧ total = (discardedJobs table).length ∧
      jobs.length ≤ min limit (min total (queryLimit limit offset).toNat - offset) ∧
      ∀ job ∈ jobs, job.id ∈ (discardedJobs table).map (·.id) := by
  have hL : 1 ≤ queryLimit limit offset := by
    by_contra hL
    obtain ⟨e, he⟩ : ∃ e, listDeadLetter s s' dead limit offset table = .error e :=
      listDeadLetter_refused (Int.not_le.mp hL)
    rw [he] at h
    cases h
  refine ⟨hL, ?_⟩
  by_cases hsum : offset + limit < intBound
  · rw [listDeadLetter_eq hone hone' hL hsum] at h
    obtain ⟨rfl, rfl⟩ := Prod.mk.inj (Except.ok.inj h)
    generalize queryLimit limit offset = L
    refine ⟨rfl, ?_, fun job hjob => ?_⟩
    · rw [List.length_map]
      refine (List.length_filter_le _ _).trans ?_
      simp only [List.length_take, List.length_drop]
      omega
    · obtain ⟨r, hr, rfl⟩ := List.mem_map.mp hjob
      have hmem := List.mem_of_mem_take (List.mem_of_mem_drop (List.mem_of_mem_take
        (List.mem_of_mem_filter hr)))
      exact List.mem_map_of_mem (f := (·.id)) hmem
  · -- the end of the slice is no `int`
    have hle : (inState JobState.discarded.name table).length ≤ table.length := length_inState_le
    rw [listDeadLetter, listJobsByState_overflow s hL (Nat.not_lt.mp hsum) (by omega),
      Split.first_of_length_le (hle.trans hone)] at h
    split at h
    · obtain ⟨rfl, rfl⟩ := Prod.mk.inj (Except.ok.inj h)
      exact ⟨rfl, Nat.zero_le _, fun job hjob => (by cases hjob)⟩
    · cases h

/-- A page that the limit reaches to the end of, when all discarded jobs are
dead letters. -/
theorem listDeadLetter_all (hone : table.length ≤ s.size 0) (hone' : table.length ≤ s'.size 0)
    (hall : ∀ r ∈ discardedJobs table, (dead.lookup r.id).isSome = true)
    (hL : 1 ≤ queryLimit limit offset) (hsum : offset + limit < intBound)
    (hreach : min (discardedJobs table).length (offset + limit) ≤ (queryLimit limit offset).toNat) :
    listDeadLetter s s' dead limit offset table =
      .ok ((((discardedJobs table).drop offset).take limit).map recordToJob,
        (discardedJobs table).length) := by
  rw [listDeadLetter_eq hone hone' hL hsum]
  generalize (queryLimit limit offset).toNat = n at hreach
  have hslice : (((discardedJobs table).take n).drop offset).take limit =
      ((discardedJobs table).drop offset).take limit := by
    rw [List.drop_take, List.take_take, List.take_eq_take_iff, List.length_drop]
    omega
  rw [hslice, List.filter_eq_self.mpr fun r hr =>
    hall r (List.mem_of_mem_drop (List.mem_of_mem_take hr))]

/-! ## The places of the pages -/

theorem lt_pageCount {size k : Nat} (hlimit : 1 ≤ limit) :
    k < pageCount size limit ↔ k = 0 ∨ limit * k < size := by
  have hdiv : k < (size + limit - 1) / limit ↔ limit * k < size := by
    rw [Nat.lt_div_iff_mul_lt (by omega), Nat.mul_comm limit k]
    omega
  rw [pageCount, lt_max_iff, hdiv, Nat.lt_one_iff]

theorem size_le_pageCount {size : Nat} (hlimit : 1 ≤ limit) :
    size ≤ limit * pageCount size limit := by
  by_contra h
  exact absurd ((lt_pageCount hlimit).mpr (.inr (Nat.not_le.mp h))) (lt_irrefl _)

theorem length_flatMap_full {α : Type} {f : Nat → List α} {m c : Nat}
    (h : ∀ k < c, (f k).length = m) : ((List.range c).flatMap f).length = m * c := by
  induction c with
  | zero => rfl
  | succ c ih =>
    rw [List.range_succ, List.flatMap_append, List.length_append, List.flatMap_singleton,
      ih fun k hk => h k (by omega), h c (by omega), Nat.mul_succ]

/-- The number of jobs on each page follows from the pages before the last one. -/
theorem ListsAll.length_eq {pages : Nat → Except Error (List Job × Nat)} {contents : Nat → List Job}
    (h : ListsAll pages dead limit contents) {k : Nat} (hk : k < pageCount dead.keys.length limit)
    (hlimit : 1 ≤ limit) : (contents k).length = min limit (dead.keys.length - limit * k) := by
  by_cases hlast : k + 1 < pageCount dead.keys.length limit
  · have hsize := (lt_pageCount hlimit).mp hlast
    rw [h.full k hlast]
    rw [Nat.mul_succ] at hsize
    omega
  · obtain hcount : pageCount dead.keys.length limit = k + 1 := by omega
    have htotal := h.once.length_eq
    rw [List.length_map, hcount, List.range_succ, List.flatMap_append, List.length_append,
      List.flatMap_singleton, length_flatMap_full fun j hj => h.full j (by omega)] at htotal
    have hsize : dead.keys.length ≤ _ := size_le_pageCount hlimit
    rw [hcount, Nat.mul_succ] at hsize
    omega

end

/-- **Paging through the dead letter set** gives all of it exactly when it is all
of the discarded jobs, and the limits can be sent. -/
theorem dead_letter_pages_iff {dead : Table Unit} {table : List TableItem} {s s' : Nat → Split}
    {limit : Nat} (hone : ∀ k, table.length ≤ (s k).size 0)
    (hone' : ∀ k, table.length ≤ (s' k).size 0) (hlimit : 1 ≤ limit) (hlimit' : limit < intBound)
    (hsize : dead.keys.length ≤ intBound) :
    (∃ contents, ListsAll (fun k => listDeadLetter (s k) (s' k) dead limit (limit * k : Nat) table)
      dead limit contents) ↔ AllDead dead limit table := by
  have hoffset : ∀ {k}, k < pageCount dead.keys.length limit → limit * k < intBound := by
    intro k hk
    have hpos : 0 < intBound := by decide
    rcases (lt_pageCount hlimit).mp hk with rfl | hk
    · exact hpos
    · exact hk.trans_le hsize
  constructor
  · rintro ⟨contents, h⟩
    have hbound : ∀ k (hk : k < pageCount dead.keys.length limit), _ := fun k hk =>
      listDeadLetter_bound (hone k) (hone' k) hlimit' (hoffset hk) (h.pages k hk)
    have hfirst : 0 < pageCount dead.keys.length limit := (lt_pageCount hlimit).mpr (.inl rfl)
    have htotal : dead.keys.length = (discardedJobs table).length := (hbound 0 hfirst).2.1
    constructor
    · -- the set is part of the discarded jobs, and has as many jobs
      have hsub : dead.keys ⊆ (discardedJobs table).map (·.id) := by
        intro id hid
        obtain ⟨job, hjob, rfl⟩ := List.mem_map.mp (h.once.symm.subset hid)
        obtain ⟨k, hk, hjob⟩ := List.mem_flatMap.mp hjob
        exact (hbound k (List.mem_range.mp hk)).2.2.2 job hjob
      refine ((List.subperm_of_subset dead.keys_nodup hsub).perm_of_length_le ?_).symm
      rw [List.length_map, htotal]
    · intro k hk
      obtain ⟨hL, -, hlen, -⟩ := hbound k hk
      rw [h.length_eq hk hlimit] at hlen
      have hplace := (lt_pageCount hlimit).mp hk
      rw [Nat.mul_succ]
      generalize queryLimit limit (limit * k : Nat) = L at hL hlen
      rcases hplace with rfl | hplace
      · rw [Nat.mul_zero] at hlen ⊢
        omega
      · omega
  · intro h
    have htotal : (discardedJobs table).length = dead.keys.length := by
      rw [← List.length_map (f := (·.id)), h.same.length_eq]
    have hall : ∀ r ∈ discardedJobs table, (dead.lookup r.id).isSome = true := by
      intro r hr
      rw [AList.lookup_isSome]
      exact AList.mem_keys.mpr (h.same.subset (List.mem_map_of_mem (f := (·.id)) hr))
    -- all sums fit: the last page's is less than twice the largest limit
    have hsum : ∀ k < pageCount dead.keys.length limit, limit * k + limit < intBound := by
      intro k hk
      have hbig : 4294967296 ≤ intBound := by decide
      rcases Nat.eq_zero_or_pos k with rfl | hpos
      · rwa [Nat.mul_zero, Nat.zero_add]
      · have hplace := ((lt_pageCount hlimit).mp hk).resolve_left (Nat.ne_of_gt hpos)
        have hlast := h.sent (pageCount dead.keys.length limit - 1) (by omega)
        have hcover : dead.keys.length ≤ _ := size_le_pageCount hlimit
        have hmax := queryLimit_lt limit
          (limit * (pageCount dead.keys.length limit - 1) : Nat)
        rw [Nat.sub_add_cancel (by omega)] at hlast
        have hle : limit ≤ limit * k := Nat.le_mul_of_pos_right limit hpos
        generalize queryLimit limit _ = L at hlast hmax
        omega
    refine ⟨fun k => (((discardedJobs table).drop (limit * k)).take limit).map recordToJob, ?_, ?_, ?_⟩
    · intro k hk
      have hL := h.sent k hk
      rw [Nat.mul_succ] at hL
      rw [← htotal] at hL ⊢
      refine listDeadLetter_all (hone k) (hone' k) hall ?_ (hsum k hk) ?_
      · generalize queryLimit limit (limit * k : Nat) = L at hL
        omega
      · generalize queryLimit limit (limit * k : Nat) = L at hL
        omega
    · intro k hk
      have hplace := (lt_pageCount hlimit).mp hk
      rw [Nat.mul_succ] at hplace
      rw [List.length_map, List.length_take, List.length_drop]
      omega
    · have hflat : (List.range (pageCount dead.keys.length limit)).flatMap
          (fun k => (((discardedJobs table).drop (limit * k)).take limit).map recordToJob) =
          (discardedJobs table).map recordToJob := by
        rw [← List.map_flatMap, flatMap_slices, List.take_of_length_le]
        rw [htotal]
        exact size_le_pageCount hlimit
      rw [hflat, List.map_map]
      exact h.same

/-! ## Two discarded jobs -/

/-- Both jobs were discarded; what the dead letter set holds is a second question. -/
def twoDiscarded : List TableItem :=
  let job (id createdAt : String) : Job :=
    { id := id, type := "email", state := .discarded, queue := "default", createdAt := createdAt }
  [.job (jobToRecord (job "j1" "2024-01-01T00:00:00.000Z")),
    .job (jobToRecord (job "j2" "2024-01-02T00:00:00.000Z"))]

def deadLettersOf (ids : List String) : Table Unit := ids.foldr (fun id t => t.insert id ()) ∅

theorem dead_letter_pages_both :
    ∃ contents, ListsAll (fun k => listDeadLetter largePages largePages (deadLettersOf ["j1", "j2"])
      (1 : Nat) (1 * k : Nat) twoDiscarded) (deadLettersOf ["j1", "j2"]) 1 contents :=
  (dead_letter_pages_iff (fun _ => by decide) (fun _ => by decide) (by decide) (by decide)
    (by decide)).mpr ⟨by decide, by decide⟩

/-- Only the second job is a dead letter: the first page is empty and counts
both. -/
theorem dead_letter_page_empty :
    listDeadLetter largePages largePages (deadLettersOf ["j2"]) 1 0 twoDiscarded = .ok ([], 2) ∧
      ¬ ∃ contents, ListsAll (fun k => listDeadLetter largePages largePages (deadLettersOf ["j2"])
        (1 : Nat) (1 * k : Nat) twoDiscarded) (deadLettersOf ["j2"]) 1 contents := by
  have hpage : listDeadLetter largePages largePages (deadLettersOf ["j2"]) 1 0 twoDiscarded =
      .ok ([], 2) := by decide +kernel
  refine ⟨hpage, fun ⟨contents, h⟩ => ?_⟩
  have hfirst := (h.pages 0 (by decide)).symm.trans hpage
  have htotal : (1 : Nat) = 2 := (Prod.mk.inj (Except.ok.inj hfirst)).2
  omega

end OjsSqs
