import OjsSqs.Listing.Complete
import OjsSqs.State.Keys
import OjsSqs.Workers.Directive
import Mathlib.Data.List.Perm.Basic

/-! # The list of the workers

`ListAllWorkers` scans the table, follows the keys of the pages, and derives the
state of a worker from its item. A worker is listed once it has sent a heartbeat
or an operator has set its state, and with what came last. -/
namespace OjsSqs
open Calls

structure WorkerInfo where
  id : String
  state : String
  directive : String
  lastHeartbeat : String
  activeJobs : Int
deriving DecidableEq, Repr

structure WorkerSummary where
  total : Nat
  running : Nat := 0
  quiet : Nat := 0
  stale : Nat := 0
deriving DecidableEq, Repr

/-- The digits of a text after its sign, and whether the sign is a minus. -/
def signed (s : String) : Bool × List Char :=
  match s.toList with
  | '-' :: digits => (true, digits)
  | '+' :: digits => (false, digits)
  | digits => (false, digits)

/-- The number `strconv.Atoi` returns: 0 when the text is none, and the nearest
`int` when it is too large. -/
def atoi (s : String) : Int :=
  let (negative, digits) := signed s
  if digits ≠ [] ∧ digits.all Char.isDigit = true then
    let n : Int := Nat.ofDigitChars 10 digits 0
    if negative then max (-(intBound : Int)) (-n) else min ((intBound : Int) - 1) n
  else 0

/-- What the scan makes of an item. -/
def workerInfo (id : String) (item : WorkerItem) : WorkerInfo :=
  let directive := (item.lookup "directive").getD ""
  { id := id
    state := if directive = "quiet" then "quiet" else "running"
    directive := directive
    lastHeartbeat := (item.lookup "last_heartbeat").getD ""
    activeJobs := match item.lookup "active_jobs" with
      | some value => atoi value
      | none => 0 }

/-- The counting loop. -/
def workerSummary (workers : List WorkerInfo) : WorkerSummary :=
  workers.foldl (fun summary w =>
    if w.state = "running" then { summary with running := summary.running + 1 }
    else if w.state = "quiet" then { summary with quiet := summary.quiet + 1 }
    else { summary with stale := summary.stale + 1 }) { total := workers.length }

/-- `ListAllWorkers`, over the items of the table in the order of the scan; the
filter drops those that are no workers. `none` when `fuel` pages are not enough. -/
def listAllWorkers (s : Split) (fuel : Nat) (limit offset : Int)
    (table : List (Option (String × WorkerItem))) :
    Option (Except Error (List WorkerInfo × WorkerSummary)) :=
  (s.readAll table fuel 0).map fun items =>
    let workers := (items.filterMap id).map fun e => workerInfo e.1 e.2
    let summary := workerSummary workers
    if workers.length ≤ offset then .ok ([], summary)
    else (goSlice workers offset (sliceEnd workers.length limit offset)).map (·, summary)

/-! ## The summary -/

theorem foldl_workers (workers : List WorkerInfo) (summary : WorkerSummary)
    (hstates : ∀ w ∈ workers, w.state = "running" ∨ w.state = "quiet") :
    workers.foldl (fun summary w =>
      if w.state = "running" then { summary with running := summary.running + 1 }
      else if w.state = "quiet" then { summary with quiet := summary.quiet + 1 }
      else { summary with stale := summary.stale + 1 }) summary =
    { summary with
      running := summary.running + workers.countP (fun w => w.state = "running")
      quiet := summary.quiet + workers.countP (fun w => w.state = "quiet") } := by
  induction workers generalizing summary with
  | nil => rfl
  | cons w workers ih =>
    have hrest := fun w' hw' => hstates w' (List.mem_cons_of_mem w hw')
    rw [List.foldl_cons, ih _ hrest]
    rcases hstates w List.mem_cons_self with hw | hw
    · simp [hw, Nat.add_assoc, Nat.add_comm 1]
    · simp [hw, Nat.add_assoc, Nat.add_comm 1]

theorem workerSummary_eq {workers : List WorkerInfo}
    (hstates : ∀ w ∈ workers, w.state = "running" ∨ w.state = "quiet") :
    workerSummary workers = {
      total := workers.length
      running := workers.countP (fun w => w.state = "running")
      quiet := workers.countP (fun w => w.state = "quiet") } ∧
    workers.countP (fun w => w.state = "running") +
      workers.countP (fun w => w.state = "quiet") = workers.length := by
  constructor
  · rw [workerSummary, foldl_workers workers _ hstates]
    simp
  · induction workers with
    | nil => rfl
    | cons w workers ih =>
      have hrest := ih fun w' hw' => hstates w' (List.mem_cons_of_mem w hw')
      rcases hstates w List.mem_cons_self with hw | hw
      · simp only [List.countP_cons, hw, List.length_cons]
        simp
        omega
      · simp only [List.countP_cons, hw, List.length_cons]
        simp
        omega

theorem workerInfo_state (id : String) (item : WorkerItem) :
    (workerInfo id item).state = "running" ∨ (workerInfo id item).state = "quiet" := by
  unfold workerInfo
  simp only
  split
  · exact .inr rfl
  · exact .inl rfl

/-! ## The number of active jobs -/

theorem signed_toString (n : Nat) : signed (toString n) = (false, (toString n).toList) := by
  unfold signed
  split
  · rename_i digits h
    have hmem : '-' ∈ (toString n).toList := h ▸ List.mem_cons_self
    exact absurd hmem (notMem_toString rfl n)
  · rename_i digits h
    have hmem : '+' ∈ (toString n).toList := h ▸ List.mem_cons_self
    exact absurd hmem (notMem_toString rfl n)
  · rfl

/-- `strconv.Atoi` of what `strconv.Itoa` has written. -/
theorem atoi_toString (n : Nat) : atoi (toString n) = min ((intBound : Int) - 1) n := by
  have hlist : (toString n).toList = Nat.toDigits 10 n := Nat.toList_repr
  have hdigits : Nat.toDigits 10 n ≠ [] ∧ (Nat.toDigits 10 n).all Char.isDigit = true := by
    refine ⟨Nat.toDigits_ne_nil, List.all_eq_true.mpr fun c hc => ?_⟩
    exact Nat.isDigit_of_mem_toDigits (by decide) (by decide) hc
  unfold atoi
  rw [signed_toString, hlist]
  simp only
  rw [if_pos hdigits, if_neg Bool.false_ne_true, Nat.ofDigitChars_ten_toDigits]

/-! ## What has come of a worker -/

/-- The last heartbeat of a worker, with the number of its jobs, and the
directive an operator has set since. -/
structure Sighting where
  heartbeat : Option (String × Nat) := none
  directive : Option String := none
deriving DecidableEq, Repr

/-- What a call says of the worker. -/
def WorkerLabel.sights (workerID : String) (seen : Option Sighting) : WorkerLabel → Option Sighting
  | .setWorkerState w d _ =>
    if w = workerID then some { seen.getD {} with directive := some d } else seen
  | .heartbeat w ids _ a =>
    if w = workerID then some { heartbeat := some (a.serverTime, ids.length) } else seen
  | .system _ => seen

/-- The last that was seen of the worker. -/
def lastSeen (workerID : String) (ls : List WorkerLabel) : Option Sighting :=
  ls.foldl (WorkerLabel.sights workerID) none

/-- What the list should say of it. -/
def Sighting.info (id : String) (seen : Sighting) : WorkerInfo where
  id := id
  state := if seen.directive = some "quiet" then "quiet" else "running"
  directive := seen.directive.getD ""
  lastHeartbeat := (seen.heartbeat.map (·.1)).getD ""
  activeJobs := match seen.heartbeat with
    | some (_, n) => min ((intBound : Int) - 1) n
    | none => 0

/-- The item holds what was seen. -/
structure Sighting.Stored (seen : Sighting) (item : WorkerItem) : Prop where
  directive : item.lookup "directive" = seen.directive
  lastHeartbeat : item.lookup "last_heartbeat" = seen.heartbeat.map (·.1)
  activeJobs : item.lookup "active_jobs" = seen.heartbeat.map fun beat => toString beat.2

theorem Sighting.Stored.info {seen : Sighting} {item : WorkerItem} (h : seen.Stored item) (id : String) :
    workerInfo id item = seen.info id := by
  obtain ⟨heartbeat, directive⟩ := seen
  unfold workerInfo Sighting.info
  rw [h.directive, h.lastHeartbeat, h.activeJobs]
  have hquiet : directive.getD "" = "quiet" ↔ directive = some "quiet" := by
    cases directive with
    | none => simp
    | some d => simp
  cases heartbeat with
  | none => simp [hquiet]
  | some beat =>
    simp [hquiet]
    exact atoi_toString beat.2

/-- Every worker's item holds what was seen of it. -/
def AllStored (ls : List WorkerLabel) (workers : Table WorkerItem) : Prop :=
  ∀ id, match lastSeen id ls with
    | none => workers.lookup id = none
    | some seen => ∃ item, workers.lookup id = some item ∧ seen.Stored item

theorem lastSeen_snoc (id : String) (ls : List WorkerLabel) (l : WorkerLabel) :
    lastSeen id (ls ++ [l]) = l.sights id (lastSeen id ls) := by
  simp [lastSeen]

section
variable {cfg : Config} {lib : CronLib} {unmarshal : MetaDecoder} {ρ : Rules}
  {s s' : World × Table WorkerItem} {ls : List WorkerLabel} {l : WorkerLabel}

/-! ## The calls -/

/-- A heartbeat replaces the worker's item. -/
theorem wp_heartbeat_item (workerID : String) (ids : List String) (ms : Int)
    (s : World × Table WorkerItem) :
    wp (Env.beside ρ.env WorkerCall.env).every (heartbeat cfg unmarshal workerID ids ms)
      (fun a s' => ∃ now, a.serverTime = cfg.formatTime now ∧
        s'.2 = s.2.insert workerID (heartbeatData cfg now ids)) s := by
  rw [heartbeat, wp_bind, wp_inl]
  refine wp_timeNow fun now _ => ?_
  rw [putWorker, wp_bind, wp_bind, workerCall, wp_inr]
  intro r v he
  obtain ⟨rfl, rfl⟩ := he
  simp only [wp_pure]
  rw [wp_bind, wp_inl]
  refine wp_always _ _ (fun extended w' => ?_) _
  rw [wp_bind, heartbeatDirective, wp_bind, getWorkerDirective, wp_bind, workerCall, wp_inr]
  intro r v he
  obtain ⟨rfl, rfl⟩ := he
  have hlast : ∀ (directive : String) (w : World), wp (Env.beside ρ.env WorkerCall.env).every
      (pure { state := "active", directive := directive, jobsExtended := extended,
              serverTime := cfg.formatTime now } : WM HeartbeatResponse)
      (fun a s' => ∃ now, a.serverTime = cfg.formatTime now ∧
        s'.2 = s.2.insert workerID (heartbeatData cfg now ids))
      (w, s.2.insert workerID (heartbeatData cfg now ids)) := fun _ _ => ⟨now, rfl, rfl⟩
  simp only [WorkerCall.run, AList.lookup_insert, wp_pure]
  split
  · rw [wp_inl]
    exact wp_always _ _ (fun directive w => hlast directive w) _
  · refine ⟨now, ?_, ?_⟩ <;> rfl

theorem heartbeatData_stored (now : Time) (ids : List String) :
    ({ heartbeat := some (cfg.formatTime now, ids.length) } : Sighting).Stored
      (heartbeatData cfg now ids) := by
  refine ⟨heartbeatData_directive now ids, ?_, AList.lookup_insert _⟩
  rw [heartbeatData, AList.lookup_insert_ne (by decide)]
  rfl

theorem wp_setWorkerState_item (workerID state : String) (s : World × Table WorkerItem) :
    wp (Env.beside ρ.env WorkerCall.env).every (setWorkerState workerID state)
      (fun _ s' => s'.2 = s.2.insert workerID
        (((s.2.lookup workerID).getD ∅).insert "directive" state)) s := by
  rw [setWorkerState, setWorkerDirective, wp_bind, workerCall, wp_inr]
  intro r v he
  obtain ⟨rfl, rfl⟩ := he
  rfl

/-- **One step.** -/
theorem AllStored.step (h : AllStored ls s.2) (hs : WorkerStep cfg lib unmarshal ρ s l s') :
    AllStored (ls ++ [l]) s'.2 := by
  intro id
  have hid := h id
  rw [lastSeen_snoc]
  cases hs with
  | @setWorkerState _ _ workerID state a hr =>
    have hitem := wp_runs (wp_setWorkerState_item workerID state s) hr
    rw [hitem]
    by_cases hw : workerID = id
    · subst hw
      simp only [WorkerLabel.sights, if_true]
      refine ⟨_, AList.lookup_insert _, ?_⟩
      cases hseen : lastSeen workerID ls with
      | none =>
        rw [hseen] at hid
        simp only at hid
        rw [hid]
        exact ⟨AList.lookup_insert _, rfl, rfl⟩
      | some seen =>
        rw [hseen] at hid
        obtain ⟨item, hitem, hstored⟩ := hid
        rw [hitem]
        refine ⟨AList.lookup_insert _, ?_, ?_⟩
        · exact (AList.lookup_insert_ne (by decide)).trans hstored.lastHeartbeat
        · exact (AList.lookup_insert_ne (by decide)).trans hstored.activeJobs
    · simp only [WorkerLabel.sights, if_neg hw]
      rw [AList.lookup_insert_ne (Ne.symm hw)]
      exact hid
  | @heartbeat _ _ workerID ids ms a hr =>
    obtain ⟨now, htime, hitem⟩ := wp_runs (wp_heartbeat_item workerID ids ms s) hr
    rw [hitem]
    by_cases hw : workerID = id
    · subst hw
      simp only [WorkerLabel.sights, if_true]
      refine ⟨_, AList.lookup_insert _, ?_⟩
      rw [htime]
      exact heartbeatData_stored now ids
    · simp only [WorkerLabel.sights, if_neg hw]
      rw [AList.lookup_insert_ne (Ne.symm hw)]
      exact hid
  | system _ => exact hid

theorem run_allStored {w : World} (h : Path (WorkerStep cfg lib unmarshal ρ) (w, ∅) ls s) :
    AllStored ls s.2 := by
  have hstart : AllStored [] (∅ : Table WorkerItem) := fun id => AList.lookup_empty id
  exact h.invariant (I := fun ls s => AllStored ls s.2) hstart fun _ _ _ _ hI hs => hI.step hs

/-! ## The list -/

/-- The table as a scan goes through it: the workers' items and others, in some
order. -/
def Scans (workers : Table WorkerItem) (table : List (Option (String × WorkerItem))) : Prop :=
  (table.filterMap id).Perm (workers.entries.map fun e => (e.1, e.2))

/-- The pages of `ListAllWorkers` are slices of one list that has each worker
once, with what was last seen of it. -/
def ListsWorkers (ls : List WorkerLabel) (table : List (Option (String × WorkerItem))) : Prop :=
  ∃ workers : List WorkerInfo, (workers.map (·.id)).Nodup ∧
    (∀ info, info ∈ workers ↔ ∃ seen, lastSeen info.id ls = some seen ∧ info = seen.info info.id) ∧
    ∀ (s : Split) (fuel limit offset : Nat), table.length + 1 < fuel → offset + limit < intBound →
      ∃ running quiet, running + quiet = workers.length ∧
        listAllWorkers s fuel limit offset table = some (.ok ((workers.drop offset).take limit,
          { total := workers.length, running := running, quiet := quiet }))

theorem listAllWorkers_eq {table : List (Option (String × WorkerItem))} (s : Split)
    {fuel limit offset : Nat} (hfuel : table.length + 1 < fuel) (hsum : offset + limit < intBound) :
    ∃ running quiet, running + quiet = (table.filterMap id).length ∧
      listAllWorkers s fuel limit offset table =
        some (.ok (((((table.filterMap id).map fun e => workerInfo e.1 e.2).drop offset).take limit,
          { total := (table.filterMap id).length, running := running, quiet := quiet }))) := by
  have hread : s.readAll table fuel 0 = some table := s.readAll_eq table (Nat.zero_le _) (by omega)
  have hstates : ∀ w ∈ (table.filterMap id).map fun e => workerInfo e.1 e.2,
      w.state = "running" ∨ w.state = "quiet" := by
    intro w hw
    obtain ⟨e, -, rfl⟩ := List.mem_map.mp hw
    exact workerInfo_state e.1 e.2
  obtain ⟨hsummary, htotal⟩ := workerSummary_eq hstates
  rw [List.length_map] at hsummary htotal
  refine ⟨_, _, htotal, ?_⟩
  rw [listAllWorkers, hread, Option.map_some]
  simp only [hsummary]
  generalize hworkers : (table.filterMap id).map (fun e => workerInfo e.1 e.2) = workers
  have hlen : workers.length = (table.filterMap id).length := by
    rw [← hworkers, List.length_map]
  split
  · rename_i hle
    rw [List.drop_of_length_le (Int.ofNat_le.mp hle), List.take_nil]
  · rename_i hlt
    rw [goSlice_page workers (by omega) hsum]
    rfl

/-- **The workers are listed.** In every run of heartbeats, operators and the
rest of the system the list has the workers that were seen, each with its last
heartbeat and the directive set after that, whatever the pages of the scan and
the order of the items. -/
theorem workers_listed {t : Time} (h : Path (WorkerStep cfg lib unmarshal ρ) (.start t, ∅) ls s)
    {table : List (Option (String × WorkerItem))} (htable : Scans s.2 table) :
    ListsWorkers ls table := by
  have hstored := run_allStored h
  have hmem : ∀ e : String × WorkerItem, e ∈ table.filterMap id ↔ s.2.lookup e.1 = some e.2 := by
    intro e
    rw [htable.mem_iff, List.mem_map]
    constructor
    · rintro ⟨x, hx, rfl⟩
      exact AList.mem_lookup_iff.mpr hx
    · intro hl
      exact ⟨⟨e.1, e.2⟩, AList.mem_lookup_iff.mp hl, rfl⟩
  refine ⟨(table.filterMap id).map fun e => workerInfo e.1 e.2, ?_, fun info => ?_,
    fun s fuel limit offset hfuel hsum => ?_⟩
  · rw [List.map_map]
    have hkeys : (s.2.entries.map fun e => e.1).Nodup := s.2.keys_nodup
    refine ((htable.map fun e => e.1).nodup_iff).mpr ?_
    rw [List.map_map]
    exact hkeys
  · rw [List.mem_map]
    constructor
    · rintro ⟨e, he, rfl⟩
      have hl := (hmem e).mp he
      have hid := hstored e.1
      cases hseen : lastSeen e.1 ls with
      | none =>
        rw [hseen] at hid
        simp only at hid
        rw [hl] at hid
        cases hid
      | some seen =>
        rw [hseen] at hid
        obtain ⟨item, hitem, hst⟩ := hid
        rw [hl] at hitem
        cases hitem
        exact ⟨seen, hseen, hst.info e.1⟩
    · rintro ⟨seen, hseen, hinfo⟩
      have hid := hstored info.id
      rw [hseen] at hid
      obtain ⟨item, hitem, hst⟩ := hid
      exact ⟨(info.id, item), (hmem _).mpr hitem, (hst.info info.id).trans hinfo.symm⟩
  · obtain ⟨running, quiet, htotal, hlist⟩ := listAllWorkers_eq s hfuel hsum
    refine ⟨running, quiet, ?_, ?_⟩
    · rw [List.length_map]
      exact htotal
    · rw [List.length_map]
      exact hlist

end

/-- The list after an operator has set `w1` to quiet, in a scan that also comes
to another item. -/
theorem workers_listed_quiet : ListsWorkers quietLabels
    [none, some ("w1", AList.singleton "directive" "quiet")] := by
  have hscan : Scans quietState.2 [none, some ("w1", AList.singleton "directive" "quiet")] :=
    List.Perm.refl _
  exact workers_listed (quiet_path demoLib) hscan

end OjsSqs
