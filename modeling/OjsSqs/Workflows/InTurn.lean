import OjsSqs.Workflows.Chains
import OjsSqs.Workflows.Once

/-! # The jobs of a chain come in turn

A chain has one live job at most. The Ack of a step makes the job of the next one,
and the chain ends with the Ack of its last step or with the discard of its current
one. A dead job of a chain is the last there is, so that bringing it back changes
nothing of this. -/
namespace OjsSqs
open Calls

/-- The state of the stored workflow. -/
def World.flowState (wfID : String) (w : World) : Option WorkflowState :=
  (w.store.workflows.lookup wfID).map (·.state)

/-- How many jobs of the workflow are completed. -/
def completedJobs (wfID : String) (w : World) : Nat :=
  w.store.jobs.keys.countP fun id => (w.flowJob wfID id).any (·.state = .completed)

/-- One job at most is not terminal, a step has one job at most, and while the
workflow runs its record counts the completed jobs. -/
structure ComesInTurn (wfID : String) (w : World) : Prop where
  live : ∀ i j r r', w.flowJob wfID i = some r → w.flowJob wfID j = some r' →
    isTerminalState r.state = false → isTerminalState r'.state = false → i = j
  steps : ∀ i j r r', w.flowJob wfID i = some r → w.flowJob wfID j = some r' →
    r.workflowStep = r'.workflowStep → i = j
  counted : ∀ wf, w.store.workflows.lookup wfID = some wf → wf.state = .running →
    wf.completed = completedJobs wfID w

/-- The step is the Ack that completes the job of the chain's step `k`. -/
def AcksStep (wfID : String) (k : Nat) (w : World) (l : SystemLabel) (w' : World) : Prop :=
  ∃ id result response r r', l = .op (.job (.ack id result)) (.ok response) ∧
    w.flowJob wfID id = some r ∧ r.workflowStep = (k : Int) ∧ isTerminalState r.state = false ∧
    w'.flowJob wfID id = some r' ∧ r'.state = .completed

/-- The step is the Nack that discards the job of the chain's step `k`. -/
def DiscardsStep (wfID : String) (k : Nat) (w : World) (l : SystemLabel) (w' : World) : Prop :=
  ∃ id error requeue response r r', l = .op (.job (.nack id error requeue)) (.ok response) ∧
    w.flowJob wfID id = some r ∧ r.workflowStep = (k : Int) ∧ isTerminalState r.state = false ∧
    w'.flowJob wfID id = some r' ∧ r'.state = .discarded

/-- What a step does to a chain of `n` steps. -/
structure GoesInTurn (n : Nat) (wfID : String) (w : World) (l : SystemLabel) (w' : World) : Prop where
  kept : ∀ id r, w.flowJob wfID id = some r →
    ∃ r', w'.flowJob wfID id = some r' ∧ r'.workflowStep = r.workflowStep
  made : ∀ id r', w.flowJob wfID id = none → w'.flowJob wfID id = some r' →
    w.flowRuns wfID ∧ ∃ k : Nat, r'.workflowStep = (k : Int) + 1 ∧ AcksStep wfID k w l w'
  completes : w.flowRuns wfID →
    (w'.flowState wfID = some .completed ↔ ∃ k, k + 1 = n ∧ AcksStep wfID k w l w')
  fails : w.flowRuns wfID →
    (w'.flowState wfID = some .failed ↔ DiscardsStep wfID (completedJobs wfID w) w l w')
  settled : ¬ w.flowRuns wfID → w'.flowState wfID = w.flowState wfID

/-- A chain, and while it runs no job has ended that it was not told of. -/
structure ChainOnce (cfg : Config) (req : WorkflowRequest) (wfID : String) (ids : List String)
    (es : List Finish) (w : World) : Prop where
  chain : ChainIn cfg req wfID ids es w
  ended : w.flowRuns wfID → EndedJobs wfID es w

section
variable {cfg : Config} {lib : CronLib} {ρ : Rules} {req : WorkflowRequest} {flow : Workflow}
  {wfID id : String} {ids : List String} {es : List Finish} {w w₁ w' : World} {l : SystemLabel}
  {e : Finish} {r r' : JobRecord} {wf : WorkflowRecord}

/-! ## States -/

theorem completedJobs_eq (hnodup : ids.Nodup) (h : ∀ id, id ∈ ids ↔
    ∃ r, w.flowJob wfID id = some r ∧ r.state = .completed) : completedJobs wfID w = ids.length := by
  have hperm : (w.store.jobs.keys.filter fun id =>
      (w.flowJob wfID id).any (·.state = .completed)).Perm ids := by
    refine (List.perm_ext_iff_of_nodup (w.store.jobs.keys_nodup.filter _) hnodup).mpr fun id => ?_
    rw [List.mem_filter, h id, Option.any_eq_true]
    simp only [decide_eq_true_eq, and_iff_right_iff_imp]
    rintro ⟨r, hr, -⟩
    exact mem_keys_of_flowJob hr
  rw [completedJobs, List.countP_eq_length_filter, hperm.length_eq]

namespace ChainOnce

theorem noneFailed (h : ChainOnce cfg req wfID ids es w) (hchain : req.type = "chain")
    (hruns : w.flowRuns wfID) : es.length < req.jobList.length ∧ ∀ e ∈ es, e.failed = false := by
  obtain ⟨hlt, hnone⟩ := isOver_eq_false.mp (h.chain.reckoned.runs_iff.mp hruns)
  have hnone := hnone hchain
  rw [anyFailed, List.any_eq_false] at hnone
  exact ⟨hlt, fun e he => Bool.eq_false_iff.mpr (hnone e he)⟩

/-- A job that is not terminal is the last one. -/
theorem last_of_live (h : ChainOnce cfg req wfID ids es w) (hr : w.flowJob wfID id = some r)
    (hs : isTerminalState r.state = false) : ids.getLast? = some id := by
  obtain ⟨rest, hids, hlen⟩ := h.chain.order
  have hmem : id ∈ ids := by
    rw [← h.chain.members, hr]
    rfl
  by_cases hruns : w.flowRuns wfID
  · rw [h.chain.reckoned.runs_iff.mp hruns] at hlen
    obtain ⟨last, rfl⟩ := List.length_eq_one_iff.mp hlen
    rw [hids, List.mem_append, List.mem_singleton] at hmem
    have hid : id = last := by
      refine hmem.resolve_left fun htold => ?_
      rw [((h.ended hruns).terminal_iff hr).mpr htold] at hs
      cases hs
    rw [hids, hid, List.getLast?_concat]
  · have htold := h.chain.rest hruns id r hr
    rw [h.chain.reckoned.runs_iff, Bool.not_eq_false] at hruns
    rw [hruns, if_pos rfl, List.length_eq_zero_iff] at hlen
    rw [hids, hlen, List.append_nil]
    -- the steps before the last end were acked
    have hacked := h.chain.acked
    have hdone := h.chain.done
    rcases List.eq_nil_or_concat' es with rfl | ⟨init, e, rfl⟩
    · cases htold
    · rw [List.dropLast_concat, anyFailed, List.any_eq_false] at hacked
      rw [List.map_append, List.mem_append] at htold
      rw [List.map_append, List.map_singleton, List.getLast?_concat]
      rcases htold with htold | hlast
      · obtain ⟨e', he', rfl⟩ := List.mem_map.mp htold
        obtain ⟨r', hr', hs'⟩ := hdone e' (List.mem_append_left _ he')
          (Bool.eq_false_iff.mpr (hacked e' he'))
        rw [hr] at hr'
        obtain rfl := Option.some.inj hr'
        rw [hs'] at hs
        cases hs
      · rw [List.mem_singleton.mp hlast]

/-- A running chain counts its completed jobs: those it was told of. -/
theorem counted (h : ChainOnce cfg req wfID ids es w) (hchain : req.type = "chain")
    (hruns : w.flowRuns wfID) : completedJobs wfID w = es.length := by
  have hended := h.ended hruns
  have hacked := (h.noneFailed hchain hruns).2
  refine (completedJobs_eq hended.once fun id => ⟨fun hid => ?_, ?_⟩).trans (List.length_map _)
  · obtain ⟨e, he, rfl⟩ := List.mem_map.mp hid
    exact h.chain.done e he (hacked e he)
  · rintro ⟨r, hr, hs⟩
    exact (hended.terminal_iff hr).mp (by rw [hs]; rfl)

/-- **The states of a chain.** -/
theorem comesInTurn (h : ChainOnce cfg req wfID ids es w) (hchain : req.type = "chain") :
    ComesInTurn wfID w where
  live i j r r' hi hj hs hs' := by
    exact Option.some.inj ((h.last_of_live hi hs).symm.trans (h.last_of_live hj hs'))
  steps i j r r' hi hj hsame := by
    obtain ⟨k, -, hk, hstep, -⟩ := h.chain.made hi
    obtain ⟨k', -, hk', hstep', -⟩ := h.chain.made hj
    rw [hstep, hstep', Int.natCast_inj] at hsame
    subst hsame
    exact Option.some.inj (hk.symm.trans hk')
  counted wf hwf hstate := by
    have hruns : w.flowRuns wfID := ⟨wf, hwf, hstate⟩
    obtain ⟨wf', hwf', hc⟩ := h.chain.reckoned
    rw [hwf] at hwf'
    obtain rfl := Option.some.inj hwf'
    have hall : es.countP (fun e => !e.failed) = es.length :=
      List.countP_eq_length.mpr fun e he => by rw [(h.noneFailed hchain hruns).2 e he]; rfl
    rw [hc.completed, hall, h.counted hchain hruns]

end ChainOnce

/-! ## Steps -/

theorem finish_of_notes (h : flowNotes wfID w l = [e]) : l.finish = some e := by
  have he : e ∈ l.finish.toList := List.mem_of_mem_filter (h ▸ List.mem_singleton_self e)
  exact Option.mem_toList.mp he

theorem notes_ne_nil (hl : l.finish = some e) (hr : w.flowJob wfID e.jobID = some r)
    (hruns : w.flowRuns wfID) : flowNotes wfID w l ≠ [] := by
  rw [flowNotes, hl, Option.toList_some, List.filter_cons_of_pos]
  · exact List.cons_ne_nil _ _
  · rw [hr, decide_eq_true hruns]
    rfl

theorem FlowStays.flowState (hf : FlowStays wfID w w') : w'.flowState wfID = w.flowState wfID := by
  rw [World.flowState, hf.aside.record, World.flowState]

theorem ReckonedAs.flowState (h : ReckonedAs req wfID es w) :
    w.flowState wfID = some (req.stateAfter es) := by
  obtain ⟨wf, hwf, hc⟩ := h
  rw [World.flowState, hwf, Option.map_some, hc.state]

theorem flowState_of_runs (h : w.flowRuns wfID) : w.flowState wfID = some .running := by
  obtain ⟨wf, hwf, hstate⟩ := h
  rw [World.flowState, hwf, Option.map_some, hstate]

namespace ChainOnce

/-- Only jobs that end bring a chain to its next step, or to its end. -/
theorem stays (h : ChainOnce cfg req wfID ids es w) (hf : FlowStays wfID w w')
    (hD : KeepsAcked wfID w w') (hU : w.flowRuns wfID → FlowUndisturbed wfID w w') :
    ChainOnce cfg req wfID ids es w' where
  chain := h.chain.stays hf hD
  ended hruns := by
    have hruns : w.flowRuns wfID := by
      rw [World.flowRuns, ← hf.aside.record]
      exact hruns
    exact (h.ended hruns).stays hf (hU hruns) fun hnot => absurd hruns hnot

theorem moves (h : ChainOnce cfg req wfID ids es w) (hm : FlowMoves cfg wfID e r wf w w₁ w')
    (hchain : req.type = "chain") :
    ∃ more, ChainOnce cfg req wfID (ids ++ more) (es ++ [e]) w' := by
  obtain ⟨more, hI⟩ := h.chain.moves hm hchain
  exact ⟨more, hI, fun _ => (h.ended hm.runs).moves hm⟩

/-- What a running chain becomes when its current step ends. -/
theorem stateAfter (h : ChainOnce cfg req wfID ids es w) (hchain : req.type = "chain")
    (hruns : w.flowRuns wfID) (e : Finish) : req.stateAfter (es ++ [e]) =
      if e.failed then .failed else if es.length + 1 = req.jobList.length then .completed else .running := by
  obtain ⟨hlt, hacked⟩ := h.noneFailed hchain hruns
  have hnone : anyFailed es = false := by
    rw [anyFailed, List.any_eq_false]
    exact fun e he => Bool.eq_false_iff.mp (hacked e he)
  rw [WorkflowRequest.stateAfter, WorkflowRequest.isOver, anyFailed_snoc, hnone, Bool.false_or,
    decide_eq_true hchain, Bool.true_and, List.length_append, List.length_singleton]
  cases e.failed with
  | true => simp
  | false =>
    have hiff : req.jobList.length ≤ es.length + 1 ↔ es.length + 1 = req.jobList.length := by omega
    simp [hiff]

end ChainOnce

/-- The labels that end a job. -/
theorem SystemLabel.finish_cases (h : l.finish = some e) :
    (∃ result response, l = .op (.job (.ack e.jobID result)) (.ok response) ∧ e.failed = false) ∨
      ∃ error requeue response, l = .op (.job (.nack e.jobID error requeue)) (.ok response) ∧
        e.failed = true := by
  cases l with
  | env l => cases h
  | op o a =>
    cases o with
    | job o =>
      cases o with
      | ack id result =>
        cases a with
        | error err => cases h
        | ok response =>
          cases h
          exact .inl ⟨result, response, rfl, rfl⟩
      | nack id error requeue =>
        cases a with
        | error err => cases h
        | ok response =>
          rw [SystemLabel.finish] at h
          split at h
          · cases h
            exact .inr ⟨error, requeue, response, rfl, rfl⟩
          · cases h
      | _ => cases h
    | _ => cases h

theorem AcksStep.finish {k : Nat} (h : AcksStep wfID k w l w') : ∃ e r, l.finish = some e ∧
    e.failed = false ∧ w.flowJob wfID e.jobID = some r ∧ r.workflowStep = (k : Int) := by
  obtain ⟨id, result, response, r, -, rfl, hr, hstep, -, -⟩ := h
  exact ⟨⟨id, false, result⟩, r, rfl, rfl, hr, hstep⟩

namespace ChainOnce

/-- A step that ends no job of the running chain leaves it where it is. -/
theorem goes_stays (h : ChainOnce cfg req wfID ids es w) (hf : FlowStays wfID w w')
    (hnotes : flowNotes wfID w l = []) : GoesInTurn req.jobList.length wfID w l w' where
  kept id r hr := by
    obtain ⟨r', hr', hfixed, -⟩ := hf.turns id r hr
    exact ⟨r', hr', congrArg (·.workflowStep) hfixed⟩
  made id r' hnone hr' := by
    rw [hf.aside.noneNew id hnone] at hr'
    cases hr'
  completes hruns := by
    rw [hf.flowState, flowState_of_runs hruns]
    refine ⟨fun he => (by cases he), fun ⟨k, _, hacks⟩ => ?_⟩
    obtain ⟨e, r, hfinish, -, hr, -⟩ := hacks.finish
    exact absurd hnotes (notes_ne_nil hfinish hr hruns)
  fails hruns := by
    rw [hf.flowState, flowState_of_runs hruns]
    refine ⟨fun he => (by cases he), fun hdiscards => ?_⟩
    obtain ⟨id, -, -, -, r, r', -, hr, -, hs, hr', hs'⟩ := hdiscards
    obtain ⟨r₂, hr₂, -, ht⟩ := hf.turns id r hr
    rw [hr'] at hr₂
    obtain rfl := Option.some.inj hr₂
    have ht := ht ((h.ended hruns).lasting id r hr) hruns hs
    rw [hs'] at ht
    rcases ht with ht | ht <;> cases ht
  settled _ := hf.flowState

/-- The end of the current step of a running chain. -/
theorem goes_moves (h : ChainOnce cfg req wfID ids es w) (hchain : req.type = "chain")
    (hm : FlowMoves cfg wfID e r wf w w₁ w') (hl : l.finish = some e) :
    GoesInTurn req.jobList.length wfID w l w' := by
  obtain ⟨-, hcurrent⟩ := h.chain.last hm hchain
  obtain ⟨r', hr', hfixed, hs'⟩ := hm.ended
  have hstate : w'.flowState wfID = some (req.stateAfter (es ++ [e])) :=
    (h.chain.reckoned.moves hm).flowState
  rw [h.stateAfter hchain hm.runs] at hstate
  have hlive : isTerminalState r.state = false := by
    rw [hm.closes.active]
    rfl
  have hacks : e.failed = false → AcksStep wfID es.length w l w' := by
    intro hok
    rcases SystemLabel.finish_cases hl with ⟨result, response, rfl, -⟩ | ⟨_, _, _, -, hfailed⟩
    · rw [Finish.state, hok] at hs'
      exact ⟨e.jobID, result, response, r, r', rfl, hm.stored_job, hcurrent, hlive, hr', hs'⟩
    · rw [hok] at hfailed
      cases hfailed
  have hdiscards : e.failed = true → DiscardsStep wfID es.length w l w' := by
    intro hfailed
    rcases SystemLabel.finish_cases hl with ⟨_, _, -, hok⟩ | ⟨error, requeue, response, rfl, -⟩
    · rw [hok] at hfailed
      cases hfailed
    · rw [Finish.state, hfailed] at hs'
      exact ⟨e.jobID, error, requeue, response, r, r', rfl, hm.stored_job, hcurrent, hlive, hr', hs'⟩
  refine ⟨fun id r₀ hr₀ => ?_, fun id r₀ hnone hr₀ => ⟨hm.runs, ?_⟩, fun _ => ?_, fun _ => ?_,
    fun hnot => absurd hm.runs hnot⟩
  · by_cases hid : id = e.jobID
    · subst hid
      rw [hm.stored_job] at hr₀
      obtain rfl := Option.some.inj hr₀
      exact ⟨r', hr', congrArg (·.workflowStep) hfixed⟩
    · exact ⟨r₀, hm.keeps hr₀ hid, rfl⟩
  · rcases hm.was hr₀ with ⟨rfl, -⟩ | ⟨-, hold⟩ | ⟨-, -, job, hjob, t, -, rfl⟩
    · rw [hm.stored_job] at hnone
      cases hnone
    · rw [hold] at hnone
      cases hnone
    · rw [h.chain.specs hm hchain] at hjob
      split at hjob
      · cases hjob
      · rename_i hover
        obtain ⟨step, -, rfl⟩ := List.mem_map.mp hjob
        have hnone := (isOver_eq_false.mp (Bool.eq_false_iff.mpr hover)).2 hchain
        rw [anyFailed_snoc, Bool.or_eq_false_iff] at hnone
        refine ⟨es.length, ?_, hacks hnone.2⟩
        rw [newRecord_workflowStep]
        rfl
  · rw [hstate, Option.some.injEq]
    constructor
    · intro hcompleted
      cases hok : e.failed with
      | true =>
        rw [hok] at hcompleted
        cases hcompleted
      | false =>
        rw [hok] at hcompleted
        by_cases hlast : es.length + 1 = req.jobList.length
        · exact ⟨es.length, hlast, hacks hok⟩
        · simp [hlast] at hcompleted
    · rintro ⟨k, hlast, hk⟩
      obtain ⟨e', r₂, hfinish, hok, hr₂, hstep⟩ := hk.finish
      rw [hl] at hfinish
      obtain rfl := Option.some.inj hfinish
      rw [hm.stored_job] at hr₂
      obtain rfl := Option.some.inj hr₂
      rw [hcurrent, Int.natCast_inj] at hstep
      rw [hok, if_neg Bool.false_ne_true, if_pos (hstep ▸ hlast)]
  · rw [hstate, Option.some.injEq, h.counted hchain hm.runs]
    constructor
    · intro hfailed
      cases hf : e.failed with
      | true => exact hdiscards hf
      | false =>
        rw [hf, if_neg Bool.false_ne_true] at hfailed
        split at hfailed <;> cases hfailed
    · rintro ⟨id, error, requeue, response, r₂, r₃, rfl, hr₂, -⟩
      rcases SystemLabel.finish_cases hl with ⟨_, _, heq, -⟩ | ⟨_, _, _, -, hfailed⟩
      · cases heq
      · rw [hfailed, if_pos rfl]

section
variable (hρ : ρ.faults = false)
include hρ

/-- **One step.** In a running chain no job is dead: a dead one has ended it. -/
theorem step (h : ChainOnce cfg req wfID ids es w) (hg : Agrees cfg w) (hid : wfID ≠ "")
    (hchain : req.type = "chain") (hs : SystemStep cfg lib ρ w l w')
    (hl : l.cancelsNone wfID = true) :
    (∃ more, ChainOnce cfg req wfID (ids ++ more) (es ++ flowNotes wfID w l) w') ∧
      GoesInTurn req.jobList.length wfID w l w' := by
  have hleaves := (Bool.and_eq_true_iff.mp hl).1
  have hstored : wfID ∈ w.store.workflows := by
    obtain ⟨wf, hwf, -⟩ := h.chain.reckoned
    exact AList.lookup_isSome.mp (by rw [hwf]; rfl)
  rcases step_flow hρ hg hid (fun _ => hstored) hs hleaves with ⟨hf, hnotes⟩ | ⟨e, r, wf, w₁, hm, hnotes⟩
  · have hundisturbed : w.flowRuns wfID → FlowUndisturbed wfID w w' := by
      intro hruns
      have hended := h.ended hruns
      refine step_undisturbed hρ hg hs (.of_revives hl (fun _ id _ r hr => ?_) hruns) hended.lasts
      by_contra hdead
      have hf : Fits cfg .any [] w.bare id r := hg.fits id r (flowJob_eq_some.mp hr).1
      have hs : r.state = .discarded := (hf.dead (Bool.eq_true_of_not_eq_false hdead)).1
      have htold := (hended.terminal_iff hr).mp (by rw [hs]; rfl)
      obtain ⟨e, he, rfl⟩ := List.mem_map.mp htold
      obtain ⟨r', hr', hs'⟩ := h.chain.done e he ((h.noneFailed hchain hruns).2 e he)
      rw [hr] at hr'
      obtain rfl := Option.some.inj hr'
      rw [hs] at hs'
      cases hs'
    refine ⟨⟨[], ?_⟩, h.goes_stays hf hnotes⟩
    rw [hnotes, List.append_nil, List.append_nil]
    exact h.stays hf (step_acked hρ hg hs) hundisturbed
  · rw [hnotes]
    exact ⟨h.moves hm hchain, h.goes_moves hchain hm (finish_of_notes hnotes)⟩

end

end ChainOnce

section
variable (hρ : ρ.faults = false)
include hρ

/-- **The run.** -/
theorem chain_once_follows (h : Creates cfg lib ρ req flow w₁) (hchain : req.type = "chain")
    (hjobs : req.jobList ≠ []) {ls : List SystemLabel}
    (hrun : Path (Meeting (fun _ l => l.cancelsNone flow.id = true) (SystemStep cfg lib ρ)) w₁ ls w) :
    Agrees cfg w ∧ ∃ ids es, ChainOnce cfg req flow.id ids es w := by
  obtain ⟨hid, -⟩ := h.stored hρ
  obtain ⟨w₀, hnew, hcreated⟩ := h.created hρ
  obtain ⟨ids₀, h₀⟩ := h.chainIn hρ hchain hjobs
  refine hrun.keeps (I := fun w => Agrees cfg w ∧ ∃ ids es, ChainOnce cfg req flow.id ids es w)
    ⟨h.agrees hρ, ids₀, [], h₀, fun _ => hcreated.endedJobs hnew.jobs⟩ ?_
  rintro w l w' ⟨hg, ids, es, hI⟩ ⟨hl, hs⟩
  obtain ⟨⟨more, hI⟩, -⟩ := hI.step hρ hg hid hchain hs hl
  exact ⟨step_agrees hρ hg hs, _, _, hI⟩

/-- **The jobs of a chain come in turn**, in every run in which no client cancels jobs
or pushes one into the workflow: jobs may be retried, redelivered, discarded and
brought back. -/
theorem chain_comes_in_turn (h : Creates cfg lib ρ req flow w₁) (hchain : req.type = "chain")
    (hjobs : req.jobList ≠ []) {ls : List SystemLabel}
    (hrun : Path (Meeting (fun _ l => l.cancelsNone flow.id = true) (SystemStep cfg lib ρ)) w₁ ls w) :
    ComesInTurn flow.id w ∧ ∀ l w', SystemStep cfg lib ρ w l w' → l.cancelsNone flow.id = true →
      GoesInTurn req.jobList.length flow.id w l w' := by
  obtain ⟨hid, -⟩ := h.stored hρ
  obtain ⟨hg, ids, es, hI⟩ := chain_once_follows hρ h hchain hjobs hrun
  exact ⟨hI.comesInTurn hchain, fun l w' hs hl => (hI.step hρ hg hid hchain hs hl).2⟩

/-- A chain of two steps. The first one is discarded, which ends the chain, is brought
back and fetched again. -/
def deadChain : WorkflowRequest :=
  { type := "chain"
    steps := [{ demoStep "a" with retry := some { maxAttempts := 1, onExhaustion := "dead_letter" } },
      demoStep "b"] }
def buryStep : SystemAct := .op (.job (.nack "j1" (some fatalError) false))
  [.ok, .tick 0, .ok, .ok, .ok, .ok, .ok, .ok, .ok, .ok, .tick 0, .ok, .ok]
def fetchStep : SystemAct := .op (.job (.fetch 1 ["default"] 1 "w1" 0))
  [.tick 0, .ok, .ok, .deliver [1], .ok, .ok, .ok]
def ackStep : SystemAct := .op (.job (.ack "j1" none))
  [.ok, .tick 0, .ok, .ok, .ok, .ok, .ok, .ok, .ok, .ok]

omit hρ in
/-- The Ack of the job that was brought back makes no job of the second step, and the
chain stays failed. -/
theorem chain_comes_in_turn_revived : ∃ (flow : Workflow) (w₁ : World) (ls : List SystemLabel)
    (w : World) (l : SystemLabel) (w' : World), Creates demo demoLib {} deadChain flow w₁ ∧
      Path (Meeting (fun _ l => l.cancelsNone flow.id = true) (SystemStep demo demoLib {})) w₁ ls w ∧
      SystemStep demo demoLib {} w l w' ∧
      (w.flowJob flow.id "j1").map (·.state) = some .active ∧
      (w'.flowJob flow.id "j1").map (·.state) = some .completed ∧
      w'.flowState flow.id = some .failed ∧
      ∀ id, w.flowJob flow.id id = none → w'.flowJob flow.id id = none := by
  have hok : ∀ x ∈ [fetchFirst, buryStep, reviveFirst, fetchStep], ∀ w l w',
      x.run demo demoLib {} w = some (l, w') → l.cancelsNone "wf" = true := by
    intro x hx w l w' hr
    simp only [List.mem_cons, List.not_mem_nil, or_false] at hx
    rcases hx with rfl | rfl | rfl | rfl <;> (obtain ⟨a, rfl, -⟩ := SystemAct.run_op hr; rfl)
  obtain ⟨flow, w₁, ls, w, es, hid, hcreates, hpath, hw⟩ := play_demo deadChain firstJob _
    (fun _ w _ => (w.flowState "wf", (w.flowJob "wf" "j1").map (·.state),
      (ackStep.run demo demoLib {} w).map fun y : SystemLabel × World =>
        (y.2.flowJob "wf" "j1").map (·.state)))
    (some .failed, some .active, some (some .completed)) rfl hok
  rw [← hid] at hw hpath
  obtain ⟨hfailed, hw⟩ := Prod.mk.inj hw
  obtain ⟨hactive, hlast⟩ := Prod.mk.inj hw
  obtain ⟨⟨l, w'⟩, hrun, hcompleted⟩ := Option.map_eq_some_iff.mp hlast
  have hstep := SystemAct.run_step hrun
  obtain ⟨a, rfl, -⟩ := SystemAct.run_op hrun
  have hover : ¬ w.flowRuns flow.id := by
    intro hruns
    rw [flowState_of_runs hruns] at hfailed
    cases hfailed
  obtain ⟨-, hsteps⟩ :=
    chain_comes_in_turn rfl hcreates (by decide) (by decide) hpath.unnoted
  have hgoes := hsteps _ w' hstep rfl
  refine ⟨flow, w₁, ls, w, _, w', hcreates, hpath.unnoted, hstep, hactive, hcompleted,
    (hgoes.settled hover).trans hfailed, fun id hnone => ?_⟩
  cases hr : w'.flowJob flow.id id with
  | none => rfl
  | some r => exact absurd (hgoes.made id r hnone hr).1 hover

end

end
end OjsSqs
