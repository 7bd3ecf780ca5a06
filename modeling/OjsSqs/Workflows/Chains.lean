import OjsSqs.System.Final
import OjsSqs.Workflows.Ended

/-! # Chains

The steps of a chain run one after the other: a step has its job once the step
before it was acked, and the job comes with the results of the steps before it.
A step that is discarded ends the chain. -/
namespace OjsSqs
open Calls

/-- The result a step hands on: a step acked without one, or with an empty one,
hands on none. -/
def Finish.kept (e : Finish) : Option String := e.result.filter fun res => res ≠ ""

/-- The results of the steps, in order, without those that have none. -/
def keptResults (es : List Finish) : List RawMessage :=
  es.filterMap fun e => e.kept.map .text

/-- The steps that were acked have completed jobs. -/
def AckedJobs (wfID : String) (es : List Finish) (w : World) : Prop :=
  ∀ e ∈ es, e.failed = false → ∃ r, w.flowJob wfID e.jobID = some r ∧ r.state = .completed

/-- No completed job of the workflow is taken up again. -/
def KeepsAcked (wfID : String) (w w' : World) : Prop :=
  ∀ id r r', w.flowJob wfID id = some r → r.state = .completed → w'.flowJob wfID id = some r' →
    r'.state = .completed

/-- The jobs `ids` a chain has so far, which was told of the ends `es`. -/
structure ChainIn (cfg : Config) (req : WorkflowRequest) (wfID : String) (ids : List String)
    (es : List Finish) (w : World) : Prop where
  reckoned : ReckonedAs req wfID es w
  done : AckedJobs wfID es w
  members : ∀ id, (w.flowJob wfID id).isSome ↔ id ∈ ids
  steps : ∀ k id, ids[k]? = some id → HasStep cfg req wfID (keptResults (es.take k)) k id w
  nodup : ids.Nodup
  order : ∃ rest, ids = es.map (·.jobID) ++ rest ∧ rest.length = if req.isOver es then 0 else 1
  acked : anyFailed es.dropLast = false
  results : ∀ i : Nat, w.store.workflowResults.lookup (wfID, (i : Int)) = es[i]?.bind (·.kept)

section
variable {cfg : Config} {req : WorkflowRequest} {wfID id : String} {ids : List String}
  {es : List Finish} {w w₁ w' : World} {e : Finish} {r : JobRecord} {wf : WorkflowRecord}

/-! ## The results -/

/-- What the record of a step's job takes from the definition. -/
theorem newRecord_step (t : Time) (id wfID : String) (step : WorkflowJobRequest) (k : Nat)
    (parents : List RawMessage) :
    (newRecord cfg t id (workflowJob wfID step k parents)).type = step.type ∧
      (newRecord cfg t id (workflowJob wfID step k parents)).args = textOfRaw step.args ∧
      (newRecord cfg t id (workflowJob wfID step k parents)).queue = queueOrDefault step.queue ∧
      (newRecord cfg t id (workflowJob wfID step k parents)).parentResults = jsonOfList parents := by
  simp only [newRecord, newJob]
  split <;> exact ⟨rfl, rfl, rfl, rfl⟩

theorem resultsOf_find (s : Store) (wf : String) (i : Int) :
    ((s.resultsOf wf).find? fun e => e.1 = i).map Prod.snd = s.workflowResults.lookup (wf, i) := by
  rw [Store.resultsOf, AList.lookup]
  generalize s.workflowResults.entries = l
  induction l with
  | nil => rfl
  | cons x l ih =>
    obtain ⟨⟨wf', i'⟩, v⟩ := x
    by_cases he : (wf, i) = (wf', i')
    · cases he
      rw [List.dlookup_cons_eq]
      simp
    · have hl : List.dlookup (wf, i) (⟨(wf', i'), v⟩ :: l) = List.dlookup (wf, i) l :=
        List.dlookup_cons_ne l ⟨(wf', i'), v⟩ he
      rw [hl, ← ih, List.filterMap_cons]
      by_cases hwf : wf' = wf
      · have hi : i' ≠ i := fun hi => he (by rw [hwf, hi])
        simp [hwf, hi]
      · simp [hwf]

theorem parentResultsOf_eq (results : List (Int × String)) (k : Nat) :
    parentResultsOf results k = (List.range k).filterMap fun i : Nat =>
      (results.find? fun e => e.1 = (i : Int)).map fun e => .text e.2 := by
  have hrange : (do let i ← List.range k; pure (i : Int) : List Int) = (List.range k).map (↑·) := by
    rw [List.map_eq_flatMap]
    rfl
  rw [parentResultsOf, hrange, List.filterMap_map]
  rfl

theorem filterMap_range {α β : Type} (f : α → Option β) (l : List α) :
    ((List.range l.length).filterMap fun i => l[i]?.bind f) = l.filterMap f := by
  induction l using List.reverseRecOn with
  | nil => rfl
  | append_singleton l a ih =>
    rw [List.length_append, List.length_singleton, List.range_succ, List.filterMap_append,
      List.filterMap_append, ← ih]
    have hlast : ([l.length].filterMap fun i => (l ++ [a])[i]?.bind f) = [a].filterMap f := by
      rw [List.filterMap_cons, List.filterMap_cons, List.getElem?_concat_length]
      rfl
    rw [hlast]
    refine congrArg (· ++ _) (List.filterMap_congr fun i hi => ?_)
    rw [List.getElem?_append_left (List.mem_range.mp hi)]

/-- The parent results a step's job gets are the results of the steps before it. -/
theorem parentResults_eq {s : Store}
    (h : ∀ i : Nat, s.workflowResults.lookup (wfID, (i : Int)) = es[i]?.bind (·.kept)) :
    parentResultsOf (s.resultsOf wfID) es.length = keptResults es := by
  have hgiven : ∀ i : Nat, (((s.resultsOf wfID).find? fun e => e.1 = (i : Int)).map fun e =>
      RawMessage.text e.2) = es[i]?.bind fun e => e.kept.map .text := by
    intro i
    have hi := congrArg (Option.map RawMessage.text) ((resultsOf_find s wfID i).trans (h i))
    rw [Option.map_map, Option.map_bind] at hi
    exact hi
  rw [parentResultsOf_eq, keptResults, ← filterMap_range _ es]
  exact List.filterMap_congr fun i _ => hgiven i

/-- What storing a result adds. -/
theorem withResult_kept {k : Nat} (i : Nat) :
    (w.withResult wfID (k : Int) e.result).store.workflowResults.lookup (wfID, (i : Int)) =
      if i = k then e.kept.or (w.store.workflowResults.lookup (wfID, (i : Int)))
      else w.store.workflowResults.lookup (wfID, (i : Int)) := by
  have hne : i ≠ k → (wfID, (i : Int)) ≠ (wfID, (k : Int)) := by
    intro hik he
    exact hik (Int.ofNat_inj.mp (congrArg Prod.snd he))
  unfold World.withResult Finish.kept
  cases e.result with
  | none => simp
  | some res =>
    by_cases hres : res = ""
    · have hkept : (some res).filter (fun res => decide (res ≠ "")) = none := by
        simp [Option.filter_some, hres]
      rw [hkept]
      simp [hres]
    · have hkept : (some res).filter (fun res => decide (res ≠ "")) = some res := by
        simp [Option.filter_some, hres]
      rw [hkept]
      by_cases hik : i = k
      · subst hik
        simp [hres, World.setStore]
      · simp [hres, hik, World.setStore, AList.lookup_insert_ne (hne hik)]

/-! ## The steps -/

/-- The chain was told of all jobs when it does not run. -/
theorem ChainIn.rest (h : ChainIn cfg req wfID ids es w) (hrun : ¬ w.flowRuns wfID) :
    ∀ id r, w.flowJob wfID id = some r → id ∈ es.map (·.jobID) := by
  intro id r hr
  obtain ⟨rest, hids, hlen⟩ := h.order
  rw [h.reckoned.runs_iff, Bool.not_eq_false] at hrun
  rw [if_pos hrun, List.length_eq_zero_iff] at hlen
  rw [hlen, List.append_nil] at hids
  rw [← hids, ← h.members id, hr]
  rfl

theorem ChainIn.stays (h : ChainIn cfg req wfID ids es w) (hf : FlowStays wfID w w')
    (hD : KeepsAcked wfID w w') : ChainIn cfg req wfID ids es w' where
  reckoned := h.reckoned.stays hf
  done e he hok := by
    obtain ⟨r, hr, hs⟩ := h.done e he hok
    obtain ⟨r', hr', -⟩ := hf.turns e.jobID r hr
    exact ⟨r', hr', hD _ r r' hr hs hr'⟩
  members id := by
    rw [← h.members id]
    cases hr : w.flowJob wfID id with
    | none => rw [hf.aside.noneNew id hr]
    | some r =>
      obtain ⟨r', hr', -⟩ := hf.turns id r hr
      rw [hr']
      rfl
  steps k id hk := (h.steps k id hk).stays hf
  nodup := h.nodup
  order := h.order
  acked := h.acked
  results i := (hf.aside.results i).trans (h.results i)

/-- The chain is told of a job once: those it was told of while it runs are completed. -/
theorem ChainIn.fresh (h : ChainIn cfg req wfID ids es w) (hm : FlowMoves cfg wfID e r wf w w₁ w')
    (hchain : req.type = "chain") : e.jobID ∉ es.map (·.jobID) := by
  intro hid
  obtain ⟨e', he', hsame⟩ := List.mem_map.mp hid
  have hnone := (isOver_eq_false.mp (h.reckoned.runs_iff.mp hm.runs)).2 hchain
  rw [anyFailed, List.any_eq_false] at hnone
  obtain ⟨r', hr', hs⟩ := h.done e' he' (Bool.eq_false_iff.mpr (hnone e' he'))
  rw [show e'.jobID = e.jobID from hsame, hm.stored_job] at hr'
  obtain rfl := Option.some.inj hr'
  rw [hm.closes.active] at hs
  cases hs

/-- The job that ends is the last of the chain's jobs. -/
theorem ChainIn.last (h : ChainIn cfg req wfID ids es w) (hm : FlowMoves cfg wfID e r wf w w₁ w')
    (hchain : req.type = "chain") :
    ids = es.map (·.jobID) ++ [e.jobID] ∧ r.workflowStep = (es.length : Int) := by
  obtain ⟨rest, hids, hlen⟩ := h.order
  rw [h.reckoned.runs_iff.mp hm.runs] at hlen
  obtain ⟨id, rfl⟩ := List.length_eq_one_iff.mp hlen
  have hmem : e.jobID ∈ ids := by
    rw [← h.members, hm.stored_job]
    rfl
  rw [hids, List.mem_append, List.mem_singleton] at hmem
  obtain rfl := hmem.resolve_left (h.fresh hm hchain)
  refine ⟨hids, ?_⟩
  have hlast : ids[es.length]? = some e.jobID := by
    rw [hids, List.getElem?_append_right (by simp)]
    simp
  obtain ⟨r', hr', hstep⟩ := h.steps _ _ hlast
  rw [hm.stored_job] at hr'
  obtain rfl := Option.some.inj hr'
  exact hstep.workflowStep

/-- The results after the end of a step. -/
theorem ChainIn.results_moves (h : ChainIn cfg req wfID ids es w)
    (hm : FlowMoves cfg wfID e r wf w w₁ w') (hchain : req.type = "chain") (i : Nat) :
    (w₁.withResult wfID r.workflowStep e.result).store.workflowResults.lookup (wfID, (i : Int)) =
      (es ++ [e])[i]?.bind (·.kept) := by
  rw [(h.last hm hchain).2, withResult_kept, hm.closes.flows.results, h.results i]
  by_cases hi : i = es.length
  · subst hi
    simp
  · rw [if_neg hi]
    by_cases hlt : i < es.length
    · rw [List.getElem?_append_left hlt]
    · rw [List.getElem?_eq_none (by omega), List.getElem?_eq_none (by simp; omega)]

/-- The jobs that follow the end of a step. -/
theorem ChainIn.specs (h : ChainIn cfg req wfID ids es w) (hm : FlowMoves cfg wfID e r wf w w₁ w')
    (hchain : req.type = "chain") : hm.specs = if req.isOver (es ++ [e]) then [] else
      (req.jobList[es.length + 1]?).toList.map fun step =>
        workflowJob wfID step ((es.length + 1 : Nat) : Int) (keptResults (es ++ [e])) := by
  have hc := h.reckoned.counted hm
  have hparents := parentResults_eq (s := (w₁.withResult wfID r.workflowStep e.result).store)
    (h.results_moves hm hchain)
  rw [List.length_append, List.length_singleton] at hparents
  unfold FlowMoves.specs
  rw [WorkflowRecord.nextJobs, if_pos (hc.type.trans hchain), hc.ends hm.running]
  split
  · rfl
  · rw [WorkflowRecord.nextSteps, hc.jobDefs]
    have hstep : r.workflowStep + 1 = ((es.length + 1 : Nat) : Int) := by
      rw [(h.last hm hchain).2]
      rfl
    simp only [JsonText.unmarshal, hstep, Int.toNat_natCast, hparents]

theorem AddsJobs.single {job : Job} (h : AddsJobs cfg [job] w w') :
    ∃ id t, w.store.jobs.lookup id = none ∧ w'.store.jobs.lookup id = some (newRecord cfg t id job) ∧
      ∀ i, i ≠ id → w'.store.jobs.lookup i = w.store.jobs.lookup i := by
  obtain ⟨new, hspecs, -, hnew, hold⟩ := h
  obtain ⟨⟨id, job'⟩, rfl, hjob⟩ := List.map_eq_singleton_iff.mp hspecs
  cases hjob
  obtain ⟨hnone, t, hr⟩ := hnew _ (List.mem_singleton_self _)
  exact ⟨id, t, hnone, hr, fun i hi => hold i (by simpa using hi)⟩

theorem Closes.members (h : Closes e r w w₁) :
    (w₁.flowJob wfID id).isSome ↔ (w.flowJob wfID id).isSome := by
  by_cases hid : id = e.jobID
  · subst hid
    obtain ⟨r', hr', hfixed, -⟩ := h.closed
    rw [World.flowJob, World.flowJob, hr', h.stored, Option.filter_some, Option.filter_some,
      JobRecord.fixed_workflowID hfixed]
    by_cases hwf : r.workflowID = wfID <;> simp [hwf]
  · rw [World.flowJob, World.flowJob, h.others id hid]

/-- The chain goes on while it is not over: there is a next step then. -/
theorem ChainIn.next (h : ChainIn cfg req wfID ids es w)
    (hm : FlowMoves cfg wfID e r wf w w₁ w') (hchain : req.type = "chain")
    (hover : req.isOver (es ++ [e]) = false) : ∃ step, req.jobList[es.length + 1]? = some step ∧
      AddsJobs cfg [workflowJob wfID step ((es.length + 1 : Nat) : Int) (keptResults (es ++ [e]))]
        w₁ w' := by
  have hlt := (isOver_eq_false.mp hover).1
  rw [List.length_append, List.length_singleton] at hlt
  refine ⟨req.jobList[es.length + 1], List.getElem?_eq_getElem hlt, ?_⟩
  have hadds := hm.adds
  rw [h.specs hm hchain, hover, List.getElem?_eq_getElem hlt] at hadds
  exact hadds

/-- **A step of a chain ends.** -/
theorem ChainIn.moves (h : ChainIn cfg req wfID ids es w) (hm : FlowMoves cfg wfID e r wf w w₁ w')
    (hchain : req.type = "chain") : ∃ more, ChainIn cfg req wfID (ids ++ more) (es ++ [e]) w' := by
  obtain ⟨hids, -⟩ := h.last hm hchain
  have htold : ids = (es ++ [e]).map (·.jobID) := by
    rw [hids, List.map_append]
    rfl
  have hresults : ∀ i : Nat, w'.store.workflowResults.lookup (wfID, (i : Int)) =
      (es ++ [e])[i]?.bind (·.kept) := by
    intro i
    rw [hm.advances.results]
    exact h.results_moves hm hchain i
  have hacked : anyFailed (es ++ [e]).dropLast = false := by
    rw [List.dropLast_concat]
    exact (isOver_eq_false.mp (h.reckoned.runs_iff.mp hm.runs)).2 hchain
  have hdone : AckedJobs wfID (es ++ [e]) w' := by
    intro e' he' hok
    rcases List.mem_append.mp he' with he' | he'
    · obtain ⟨r', hr', hs⟩ := h.done e' he' hok
      refine ⟨r', hm.keeps hr' fun hid => h.fresh hm hchain ?_, hs⟩
      exact hid ▸ List.mem_map_of_mem he'
    · obtain rfl := List.mem_singleton.mp he'
      obtain ⟨r', hr', -, hs⟩ := hm.ended
      rw [Finish.state, hok] at hs
      exact ⟨r', hr', hs⟩
  -- the results of the steps before a job are what they were
  have hsteps : ∀ k id, ids[k]? = some id →
      HasStep cfg req wfID (keptResults ((es ++ [e]).take k)) k id w' := by
    intro k id hk
    have hlt : k < ids.length := (List.getElem?_eq_some_iff.mp hk).1
    have hle : k ≤ es.length := by
      rw [hids, List.length_append, List.length_map, List.length_singleton] at hlt
      omega
    rw [List.take_append_of_le_length hle]
    exact (h.steps k id hk).moves hm
  cases hover : req.isOver (es ++ [e]) with
  | true =>
    have hadds := hm.adds
    rw [h.specs hm hchain, hover] at hadds
    refine ⟨[], h.reckoned.moves hm, hdone, fun id => ?_, ?_, ?_, ⟨[], ?_, ?_⟩, hacked,
      hresults⟩
    · have hsame : w'.store.jobs.lookup id = w₁.store.jobs.lookup id := by
        rcases hadds.cases id with hsame | ⟨-, job, hjob, -⟩
        · exact hsame
        · cases hjob
      rw [List.append_nil, ← h.members id, ← hm.closes.members, World.flowJob, hsame]
      rfl
    · rw [List.append_nil]
      exact hsteps
    · rw [List.append_nil]
      exact h.nodup
    · rw [← htold]
    · rw [hover]
      rfl
  | false =>
    obtain ⟨step, hstep, hadds⟩ := h.next hm hchain hover
    obtain ⟨new, t, hnone, hr, hold⟩ := hadds.single
    have hnew : new ∉ ids := by
      rw [← h.members, ← hm.closes.members, World.flowJob, hnone]
      exact fun h => by cases h
    have hlength : ids.length = es.length + 1 := by
      rw [hids, List.length_append, List.length_map]
      rfl
    refine ⟨[new], h.reckoned.moves hm, hdone, fun id => ?_, fun k id hk => ?_, ?_,
      ⟨[new], ?_, ?_⟩, hacked, hresults⟩
    · rw [List.mem_append, List.mem_singleton]
      by_cases hid : id = new
      · subst hid
        rw [World.flowJob, hr, Option.filter_some, newRecord_workflowID]
        simp [workflowJob]
      · rw [← h.members id, ← hm.closes.members, World.flowJob, hold id hid]
        simp only [hid, or_false]
        rfl
    · by_cases hlt : k < ids.length
      · rw [List.getElem?_append_left hlt] at hk
        exact hsteps k id hk
      · rw [List.getElem?_append_right (Nat.not_lt.mp hlt), List.getElem?_singleton] at hk
        split at hk
        · rename_i hzero
          cases hk
          have hk : k = es.length + 1 := by omega
          subst hk
          refine ⟨_, flowJob_eq_some.mpr ⟨hr, newRecord_workflowID⟩, step, t, hstep, ?_⟩
          rw [List.take_of_length_le (by simp)]
        · cases hk
    · rw [List.nodup_append]
      refine ⟨h.nodup, List.nodup_singleton _, fun a ha b hb hab => hnew ?_⟩
      obtain rfl := List.mem_singleton.mp hb
      exact hab ▸ ha
    · rw [← htold]
    · rw [hover]
      rfl

/-! ## The jobs -/

/-- What the job of a step was made from. -/
theorem ChainIn.made (h : ChainIn cfg req wfID ids es w) (hr : w.flowJob wfID id = some r) :
    ∃ (k : Nat) (step : WorkflowJobRequest), ids[k]? = some id ∧ r.workflowStep = (k : Int) ∧
      k ≤ es.length ∧ req.jobList[k]? = some step ∧ r.type = step.type ∧
      r.args = textOfRaw step.args ∧ r.queue = queueOrDefault step.queue ∧
      r.parentResults = jsonOfList (keptResults (es.take k)) := by
  have hmem : id ∈ ids := by
    rw [← h.members, hr]
    rfl
  obtain ⟨k, hk⟩ := List.mem_iff_getElem?.mp hmem
  obtain ⟨r', hr', hstep⟩ := h.steps k id hk
  rw [hr] at hr'
  obtain rfl := Option.some.inj hr'
  have hle : k ≤ es.length := by
    obtain ⟨rest, hids, hlen⟩ := h.order
    have hlt := (List.getElem?_eq_some_iff.mp hk).1
    rw [hids, List.length_append, List.length_map, hlen] at hlt
    split at hlt <;> omega
  have hmade := hstep
  obtain ⟨step, t, hdef, hfixed⟩ := hmade
  obtain ⟨htype, hargs, hqueue, hparents⟩ :=
    newRecord_step t id wfID step k (keptResults (es.take k))
  refine ⟨k, step, hk, hstep.workflowStep, hle, hdef, ?_, ?_, ?_, ?_⟩
  · exact (congrArg (fun r => r.type) hfixed).trans htype
  · exact (congrArg (fun r => r.args) hfixed).trans hargs
  · exact (congrArg (fun r => r.queue) hfixed).trans hqueue
  · exact (congrArg (fun r => r.parentResults) hfixed).trans hparents

/-- The steps before a step that has a job were acked, in their order. -/
theorem ChainIn.before (h : ChainIn cfg req wfID ids es w) (hchain : req.type = "chain") {k i : Nat}
    (hk : ids[k]? = some id) (hi : i < k) (he : es[i]? = some e) : e.failed = false ∧
      ∃ r, w.flowJob wfID e.jobID = some r ∧ r.workflowStep = (i : Int) ∧ r.state = .completed := by
  obtain ⟨rest, hids, hlen⟩ := h.order
  have hlt := (List.getElem?_eq_some_iff.mp hk).1
  rw [hids, List.length_append, List.length_map, hlen] at hlt
  have hok : e.failed = false := by
    cases hover : req.isOver es with
    | false =>
      have hnone := (isOver_eq_false.mp hover).2 hchain
      rw [anyFailed, List.any_eq_false] at hnone
      exact Bool.eq_false_iff.mpr (hnone e (List.mem_of_getElem? he))
    | true =>
      rw [hover] at hlt
      have hnone := h.acked
      rw [anyFailed, List.any_eq_false] at hnone
      have hmem : es.dropLast[i]? = some e := by
        rw [List.getElem?_dropLast, if_pos (by simp only [if_true] at hlt; omega), he]
      exact Bool.eq_false_iff.mpr (hnone e (List.mem_of_getElem? hmem))
  have hstep : ids[i]? = some e.jobID := by
    have hlt := (List.getElem?_eq_some_iff.mp he).1
    rw [hids, List.getElem?_append_left (by rwa [List.length_map]), List.getElem?_map, he]
    rfl
  obtain ⟨r, hr, hmade⟩ := h.steps i _ hstep
  obtain ⟨r', hr', hs⟩ := h.done e (List.mem_of_getElem? he) hok
  rw [hr] at hr'
  obtain rfl := Option.some.inj hr'
  exact ⟨hok, r, hr, hmade.workflowStep, hs⟩

/-- There is a result of every step when each was acked with one. -/
theorem length_keptResults (es : List Finish) :
    (keptResults es).length = es.length ↔ ∀ e ∈ es, e.kept ≠ none := by
  rw [keptResults, List.length_filterMap_eq_countP, List.countP_eq_length]
  simp [Option.isSome_iff_ne_none]

end

/-! ## Runs -/

section
variable {cfg : Config} {lib : CronLib} {ρ : Rules} {req : WorkflowRequest} {flow : Workflow}
  {w w₁ : World} (hρ : ρ.faults = false)
include hρ

/-- A chain begins with its first step. -/
theorem Creates.chainIn (h : Creates cfg lib ρ req flow w₁) (hchain : req.type = "chain")
    (hjobs : req.jobList ≠ []) : ∃ ids, ChainIn cfg req flow.id ids [] w₁ := by
  obtain ⟨w, hnew, hcreated⟩ := h.created hρ
  obtain ⟨ids, hnodup, hlen, hmembers, hsteps⟩ := hcreated.members hnew.jobs
  have hfirst : req.firstSteps.length = 1 := by
    rw [WorkflowRequest.firstSteps, if_pos hchain, List.length_take]
    have := List.length_pos_of_ne_nil hjobs
    omega
  have hover : req.isOver [] = false :=
    isOver_eq_false.mpr ⟨List.length_pos_of_ne_nil hjobs, fun _ => rfl⟩
  refine ⟨ids, h.counted hρ hjobs, fun _ he => absurd he List.not_mem_nil, hmembers,
    fun k id hk => ?_, hnodup, ⟨ids, rfl, ?_⟩, rfl, fun i => ?_⟩
  · rw [List.take_nil]
    exact hsteps k id hk
  · rw [hlen, hfirst, hover]
    rfl
  · rw [hcreated.results, hnew.results]
    rfl

/-- **The run of a chain.** -/
theorem chain_follows (h : Creates cfg lib ρ req flow w₁) (hchain : req.type = "chain")
    (hjobs : req.jobList ≠ []) {ls : List SystemLabel} {es : List Finish}
    (hrun : Path (Noting (flowNotes flow.id) (FlowStep cfg lib ρ flow.id (KeepsAcked flow.id)))
      (w₁, []) ls (w, es)) : ∃ ids, ChainIn cfg req flow.id ids es w := by
  obtain ⟨hid, hstored⟩ := h.stored hρ
  refine (flow_follows hρ (I := fun es w => ∃ ids, ChainIn cfg req flow.id ids es w) hid (h.agrees hρ)
    hstored (h.chainIn hρ hchain hjobs) ?_ ?_ hrun).2.2
  · intro es w w' _ hI hf hD
    obtain ⟨ids, hI⟩ := hI
    exact ⟨ids, hI.stays hf hD⟩
  · intro es e r wf w w₁ w' _ hI hm _
    obtain ⟨ids, hI⟩ := hI
    obtain ⟨more, hI⟩ := hI.moves hm hchain
    exact ⟨ids ++ more, hI⟩

/-- The same, when the jobs that have ended are left alone. -/
theorem chain_follows_ended (h : Creates cfg lib ρ req flow w₁) (hchain : req.type = "chain")
    (hjobs : req.jobList ≠ []) {ls : List SystemLabel} {es : List Finish}
    (hrun : Path (Noting (flowNotes flow.id) (FlowStep cfg lib ρ flow.id (FlowUndisturbed flow.id)))
      (w₁, []) ls (w, es)) : ∃ ids, ChainIn cfg req flow.id ids es w ∧ EndedJobs flow.id es w := by
  obtain ⟨hid, hstored⟩ := h.stored hρ
  obtain ⟨w₀, hnew, hcreated⟩ := h.created hρ
  obtain ⟨ids₀, h₀⟩ := h.chainIn hρ hchain hjobs
  refine (flow_follows hρ (I := fun es w => ∃ ids, ChainIn cfg req flow.id ids es w ∧
    EndedJobs flow.id es w) hid (h.agrees hρ) hstored
    ⟨ids₀, h₀, hcreated.endedJobs hnew.jobs⟩ ?_ ?_ hrun).2.2
  · rintro es w w' _ ⟨ids, hI, hended⟩ hf hD
    refine ⟨ids, hI.stays hf fun id r r' hr hs hr' => ?_, hended.stays hf hD hI.rest⟩
    rw [hD.ended id r r' hr (by rw [hs]; rfl) hr', hs]
  · rintro es e r wf w w₁ w' _ ⟨ids, hI, hended⟩ hm _
    obtain ⟨more, hI⟩ := hI.moves hm hchain
    exact ⟨ids ++ more, hI, hended.moves hm⟩

/-- No step takes up a completed job again, -/
theorem step_acked (hg : Agrees cfg w) {w' : World} {l : SystemLabel} {wfID : String}
    (hs : SystemStep cfg lib ρ w l w') : KeepsAcked wfID w w' := by
  intro id r r' hr hc hr'
  have hr := (flowJob_eq_some.mp hr).1
  obtain ⟨⟨r₂, hr₂, hkept⟩, -, -⟩ := step_over hρ hg ⟨r, hr, .inl hc⟩ hr hs
  rw [(flowJob_eq_some.mp hr').1] at hr₂
  obtain rfl := Option.some.inj hr₂
  exact hkept.state.trans hc

/-- and so in no run one is. -/
theorem flow_path_acked (hg : Agrees cfg w₁) {D : World → World → Prop} {wfID : String}
    {ls : List SystemLabel} {x : World × List Finish}
    (hrun : Path (Noting (flowNotes wfID) (FlowStep cfg lib ρ wfID D)) (w₁, []) ls x) :
    Path (Noting (flowNotes wfID) (FlowStep cfg lib ρ wfID (KeepsAcked wfID))) (w₁, []) ls x := by
  have hall : Agrees cfg x.1 ∧
      Path (Noting (flowNotes wfID) (FlowStep cfg lib ρ wfID (KeepsAcked wfID))) (w₁, []) ls x := by
    induction hrun with
    | nil => exact ⟨hg, .nil⟩
    | snoc _ hs ih =>
      obtain ⟨hg, ih⟩ := ih
      obtain ⟨⟨hs, hl, -⟩, hnotes⟩ := hs
      exact ⟨step_agrees hρ hg hs, ih.snoc ⟨⟨hs, hl, step_acked hρ hg hs⟩, hnotes⟩⟩
  exact hall.2

/-- A chain of two steps, and the Ack that ends the first. -/
def demoChain : WorkflowRequest := { type := "chain", steps := [demoStep "a", demoStep "b"] }
def ackChain : SystemAct := .op (.job (.ack "j1" (some "1")))
  [.ok, .tick 0, .ok, .ok, .ok, .ok, .ok, .ok, .ok, .ok, .ok, .ok, .ok, .tick 0, .uuid "j2", .ok, .ok,
    .ok, .ok, .ok, .ok]

/-- The same Ack without a result. -/
def ackChainNone : SystemAct := .op (.job (.ack "j1" none))
  [.ok, .tick 0, .ok, .ok, .ok, .ok, .ok, .ok, .ok, .ok, .ok, .ok, .tick 0, .uuid "j2", .ok, .ok, .ok,
    .ok, .ok, .ok]

omit hρ in
theorem chain_demo_runs : ∃ flow w₁ ls w, flow.id = "wf" ∧ Creates demo demoLib {} demoChain flow w₁ ∧
    Path (Noting (flowNotes flow.id) (FlowStep demo demoLib {} flow.id (FlowUndisturbed flow.id)))
      (w₁, []) ls (w, [⟨"j1", false, some "1"⟩]) ∧
    (w.flowJob "wf" "j2").map (·.workflowStep) = some 1 :=
  follow_demo firstJob [fetchFirst, ackChain] rfl

/-- **The parent results of a step** are the results of all steps before it that
were acked with one, in the order of the steps; all of them had ended when the
job was made. -/
theorem chain_parent_results (h : Creates cfg lib ρ req flow w₁) (hchain : req.type = "chain")
    (hjobs : req.jobList ≠ []) {ls : List SystemLabel} {es : List Finish}
    (hrun : Path (Noting (flowNotes flow.id) (FlowStep cfg lib ρ flow.id (FlowUndisturbed flow.id)))
      (w₁, []) ls (w, es)) {id : String} {r : JobRecord} (hr : w.flowJob flow.id id = some r) :
    ∃ (k : Nat) (step : WorkflowJobRequest), r.workflowStep = (k : Int) ∧ k ≤ es.length ∧
      req.jobList[k]? = some step ∧ r.type = step.type ∧ r.args = textOfRaw step.args ∧
      r.queue = queueOrDefault step.queue ∧
      r.parentResults = jsonOfList (keptResults (es.take k)) := by
  obtain ⟨ids, hI⟩ := chain_follows hρ h hchain hjobs (flow_path_acked hρ (h.agrees hρ) hrun)
  obtain ⟨k, step, -, hmade⟩ := hI.made hr
  exact ⟨k, step, hmade⟩

omit hρ in
/-- The job of the second step has the result of the first. -/
theorem chain_parent_results_second : ∃ (flow : Workflow) (w : World) (r : JobRecord),
    w.flowJob flow.id "j2" = some r ∧ r.type = "b" ∧ r.parentResults = .of [.text "1"] := by
  obtain ⟨flow, w₁, ls, w, hid, hcreates, hpath, hjob⟩ := chain_demo_runs
  rw [← hid] at hjob
  obtain ⟨r, hr, hstep⟩ := Option.map_eq_some_iff.mp hjob
  obtain ⟨k, step, hk, -, hdef, htype, -, -, hparents⟩ :=
    chain_parent_results rfl hcreates (by decide) (by decide) hpath hr
  obtain rfl : k = 1 := Int.ofNat_inj.mp (hk.symm.trans hstep)
  obtain rfl := Option.some.inj hdef
  exact ⟨flow, w, r, hr, htype, hparents⟩

/-- **What a chain hands on.** However the run goes, the steps before a step that
has a job were acked, and its job has the results of those acked with one, in
the order of the steps; it has one of each step when all were. -/
theorem chain_passes_results (h : Creates cfg lib ρ req flow w₁) (hchain : req.type = "chain")
    (hjobs : req.jobList ≠ []) {ls : List SystemLabel} {es : List Finish}
    (hrun : Path (Noting (flowNotes flow.id) (FlowStep cfg lib ρ flow.id fun _ _ => True))
      (w₁, []) ls (w, es)) {id : String} {r : JobRecord} (hr : w.flowJob flow.id id = some r) :
    ∃ k : Nat, r.workflowStep = (k : Int) ∧ k ≤ es.length ∧
      (∀ i e, i < k → es[i]? = some e → e.failed = false ∧
        ∃ r', w.flowJob flow.id e.jobID = some r' ∧ r'.workflowStep = (i : Int) ∧ r'.state = .completed) ∧
      r.parentResults = jsonOfList (keptResults (es.take k)) ∧
      ((keptResults (es.take k)).length = k ↔ ∀ e ∈ es.take k, e.kept ≠ none) := by
  obtain ⟨ids, hI⟩ := chain_follows hρ h hchain hjobs (flow_path_acked hρ (h.agrees hρ) hrun)
  obtain ⟨k, step, hk, hstep, hle, -, -, -, -, hparents⟩ := hI.made hr
  refine ⟨k, hstep, hle, fun i e hi he => hI.before hchain hk hi he, hparents, ?_⟩
  have hlen : (es.take k).length = k := by rw [List.length_take, Nat.min_eq_left hle]
  rw [← length_keptResults, hlen]

omit hρ in
/-- After an Ack with a result the job of the second step has one parent result. -/
theorem chain_passes_results_second : ∃ (flow : Workflow) (w : World) (r : JobRecord),
    w.flowJob flow.id "j2" = some r ∧ r.workflowStep = 1 ∧ r.parentResults = .of [.text "1"] := by
  obtain ⟨flow, w₁, ls, w, hid, hcreates, hpath, hjob⟩ := chain_demo_runs
  rw [← hid] at hjob
  obtain ⟨r, hr, hstep⟩ := Option.map_eq_some_iff.mp hjob
  obtain ⟨k, hk, -, -, hparents, -⟩ :=
    chain_passes_results rfl hcreates (by decide) (by decide) (flow_path_any hpath) hr
  obtain rfl : k = 1 := Int.ofNat_inj.mp (hk.symm.trans hstep)
  exact ⟨flow, w, r, hr, hstep, hparents⟩

omit hρ in
/-- After an Ack without a result it has none, not even an explicit `null`. -/
theorem chain_skips_missing : ∃ (flow : Workflow) (w₁ : World) (ls : List SystemLabel) (w : World)
    (r : JobRecord), Creates demo demoLib {} demoChain flow w₁ ∧
    Path (Noting (flowNotes flow.id) (FlowStep demo demoLib {} flow.id (FlowUndisturbed flow.id)))
      (w₁, []) ls (w, [⟨"j1", false, none⟩]) ∧
    w.flowJob flow.id "j2" = some r ∧ r.workflowStep = 1 ∧ (recordToJob r).parentResults = [] := by
  have hruns : ∃ flow w₁ ls w, flow.id = "wf" ∧ Creates demo demoLib {} demoChain flow w₁ ∧
      Path (Noting (flowNotes flow.id) (FlowStep demo demoLib {} flow.id (FlowUndisturbed flow.id)))
        (w₁, []) ls (w, [⟨"j1", false, none⟩]) ∧
      (w.flowJob "wf" "j2").map (fun r => (r.workflowStep, (recordToJob r).parentResults)) =
        some (1, []) := follow_demo firstJob [fetchFirst, ackChainNone] rfl
  obtain ⟨flow, w₁, ls, w, hid, hcreates, hpath, hjob⟩ := hruns
  rw [← hid] at hjob
  obtain ⟨r, hr, hrest⟩ := Option.map_eq_some_iff.mp hjob
  obtain ⟨hstep, hparents⟩ := Prod.mk.inj hrest
  exact ⟨flow, w₁, ls, w, r, hcreates, hpath, hr, hstep, hparents⟩

end
end OjsSqs
