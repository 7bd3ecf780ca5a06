import OjsSqs.Workflows.Ended

/-! # What disturbs a workflow

A workflow counts on its jobs to end once, and by an Ack or a Nack. A Cancel, a
CancelWorkflow, a Push that replaces a job and a RetryDeadLetter can cancel one
behind its back, or bring one back that has ended. A step that is asked for none
of this, or not for an unfinished or a dead job of the workflow, disturbs no
workflow. -/
namespace OjsSqs
open Calls

/-- The jobs a step is asked to cancel. -/
def SystemLabel.cancels (w : World) : SystemLabel → List String
  | .op (.job (.cancel id)) _ => [id]
  | .op (.cancelWorkflow id) _ => w.store.jobsOf id
  | _ => []

/-- The job a step is asked to bring back from the dead letter set. -/
def SystemLabel.revives : SystemLabel → List String
  | .op (.job (.retryDeadLetter id)) _ => [id]
  | _ => []

/-- A Push with a unique policy may replace a stored job. -/
def SystemLabel.mayReplace : SystemLabel → Bool
  | .op (.job (.push job)) _ => job.unique.isSome
  | _ => false

/-- The step is asked to cancel the workflow. -/
def SystemLabel.cancelsFlow (wfID : String) : SystemLabel → Bool
  | .op o _ => o.cancelsFlow wfID
  | .env _ => false

/-- The operations that may cancel a job or bring one back. -/
def SystemLabel.mayDisturb : SystemLabel → Bool
  | .op (.job (.push job)) _ => job.unique.isSome
  | .op (.job (.cancel _)) _ | .op (.job (.retryDeadLetter _)) _ | .op (.cancelWorkflow _) _ => true
  | _ => false

/-- The step is not asked to cancel an unfinished job of the workflow, or to bring
one back. -/
structure SparesJobs (wfID : String) (w : World) (l : SystemLabel) : Prop where
  replaces : l.mayReplace = false
  cancels : ∀ id ∈ l.cancels w, ∀ r, w.flowJob wfID id = some r → isTerminalState r.state = true
  revives : ∀ id ∈ l.revives, ∀ r, w.flowJob wfID id = some r → w.dead id = false

/-- A job that never expires and was not cancelled may turn so in other steps. -/
def Quietly (s s' : JobState) : Prop :=
  (isTerminalState s = true → s' = s) ∧ (isTerminalState s = false → s' ≠ .cancelled)

section
variable {cfg : Config} {lib : CronLib} {ρ : Rules} {w w' : World} {l : SystemLabel}
  {wfID id i : String} {r : JobRecord}

theorem SystemLabel.spares_of_quiet (h : l.mayDisturb = false) : SparesJobs wfID w l := by
  have hnone : ∀ {P : String → Prop}, ∀ id ∈ ([] : List String), P id :=
    fun id hid => absurd hid List.not_mem_nil
  cases l with
  | env l => exact ⟨rfl, hnone, hnone⟩
  | op o a =>
    cases o with
    | job o =>
      cases o with
      | push job => exact ⟨h, hnone, hnone⟩
      | cancel id => cases h
      | retryDeadLetter id => cases h
      | _ => exact ⟨rfl, hnone, hnone⟩
    | cancelWorkflow id => cases h
    | _ => exact ⟨rfl, hnone, hnone⟩

theorem Quietly.refl (s : JobState) : Quietly s s := by
  refine ⟨fun _ => rfl, fun h he => ?_⟩
  rw [he] at h
  cases h

theorem Quietly.goes {s s' : JobState} (h : isTerminalState s = false) (h' : s' ≠ .cancelled) :
    Quietly s s' := by
  refine ⟨fun hs => ?_, fun _ => h'⟩
  rw [h] at hs
  cases hs

theorem Edge.quietly {o : Op} {a : o.Result} {now : Time} {s : JobState}
    (h : Edge cfg w now id r o s) (hr : w.flowJob wfID id = some r) (hx : r.expiresAt = "")
    (hl : SparesJobs wfID w (.op (.job o) a)) (hpush : ∀ job, o ≠ .push job) : Quietly r.state s := by
  cases h with
  | due h => exact .goes (by rw [h]; rfl) fun h => by cases h
  | retry h => exact .goes (by rw [h]; rfl) fun h => by cases h
  | fetch h => exact .goes (by rcases h with h | h <;> rw [h] <;> rfl) fun h => by cases h
  | expire h he =>
    rw [expired, if_pos (show (recordToJob r).expiresAt = "" from hx)] at he
    cases he
  | complete h => exact .goes (by rw [h]; rfl) fun h => by cases h
  | fail h => exact .goes (by rw [h]; rfl) fun h => by cases h
  | discard h => exact .goes (by rw [h]; rfl) fun h => by cases h
  | requeue h => exact .goes (by rw [h]; rfl) fun h => by cases h
  | cancel h =>
    rw [hl.cancels id (List.mem_singleton_self id) r hr] at h
    cases h
  | replace h => exact absurd rfl (hpush _)
  | revive h hd =>
    rw [hl.revives id (List.mem_singleton_self id) r hr] at hd
    cases hd

section
variable (hρ : ρ.faults = false)
include hρ

/-- A Push without a unique policy changes no stored record. -/
theorem push_keeps {job : Job} (hu : job.unique = none)
    (hfresh : job.id = "" ∨ w.store.jobs.lookup job.id = none) :
    wp ρ.env.every (push cfg job) (fun _ w' => ∀ id r, w.store.jobs.lookup id = some r →
      w'.store.jobs.lookup id = some r) w := by
  refine wp_push_plain hρ hu hfresh fun t i _ hnone _ _ id r hr => ?_
  rw [pushed_jobs]
  refine (AList.lookup_insert_ne fun he => ?_).trans hr
  have he : id = i := he
  rw [he, hnone] at hr
  cases hr

/-! ## Cancels -/

/-- What a cancel of the jobs `ids` leaves: the other jobs in their states, and the
records of the workflows. -/
structure CancelsAmong (cfg : Config) (ids : List String) (w w' : World) : Prop where
  agrees : Agrees cfg w'
  records : ∀ wfID, w'.store.workflows.lookup wfID = w.store.workflows.lookup wfID
  others : ∀ id r, id ∉ ids → w.store.jobs.lookup id = some r →
    ∃ r', w'.store.jobs.lookup id = some r' ∧ r'.state = r.state

omit hρ in
theorem CancelsAmong.refl (hg : Agrees cfg w) (ids : List String) : CancelsAmong cfg ids w w :=
  ⟨hg, fun _ => rfl, fun _ r _ hr => ⟨r, hr, rfl⟩⟩

theorem cancel_leaves (hg : Agrees cfg w) (i : String) :
    wp ρ.env.every (cancel cfg i) (fun _ w' => CancelsAmong cfg [i] w w') w := by
  have hapart : Apart cfg .all (cancel cfg i) := apart_cancel fun _ => trivial
  have hm := wp_bare hapart.ofJobs
    (cancel_moves hρ w.bare (.cancel i) (fun _ _ h => .cancel h) hg (.inl rfl))
  have hothers : ∀ wfID, Apart cfg (.others wfID) (cancel cfg i) := fun _ => apart_cancel fun _ => trivial
  have hrecord := fun wfID => sameRecord_wp (hothers wfID).sparesFlow (ρ := ρ) (w := w)
  refine (wp_iff_runs _ _ _ _).mpr fun a w' hrun => ?_
  have hm := (wp_iff_runs _ _ _ _).mp hm a w' hrun
  refine ⟨hm.1.1.good, fun wfID => (wp_iff_runs _ _ _ _).mp (hrecord wfID) a w' hrun, fun id r hne hr => ?_⟩
  obtain ⟨r', hr', -, hs⟩ := hm.1.1.roams id r hr
  refine ⟨r', hr', ?_⟩
  rcases hs with hs | hs | ⟨-, -, _, _, _, _, _, ho⟩
  · exact hs
  · generalize r'.state = s at hs
    cases hs
    exact absurd (List.mem_singleton_self _) hne
  · cases ho

omit hρ in
theorem CancelsAmong.trans {ids : List String} {w₁ : World} (h : CancelsAmong cfg ids w w₁)
    (h' : CancelsAmong cfg ids w₁ w') : CancelsAmong cfg ids w w' where
  agrees := h'.agrees
  records wfID := (h'.records wfID).trans (h.records wfID)
  others id r hid hr := by
    obtain ⟨r₁, hr₁, hs⟩ := h.others id r hid hr
    obtain ⟨r', hr', hs'⟩ := h'.others id r₁ hid hr₁
    exact ⟨r', hr', hs'.trans hs⟩

omit hρ in
theorem CancelsAmong.mono {ids all : List String} (h : CancelsAmong cfg ids w w')
    (hsub : ids ⊆ all) : CancelsAmong cfg all w w' :=
  ⟨h.agrees, h.records, fun id r hid => h.others id r fun hmem => hid (hsub hmem)⟩

/-- The cancels of one CancelWorkflow. -/
theorem cancelJobs_leaves (all : List String) :
    ∀ ids ⊆ all, ∀ w, Agrees cfg w →
      wp ρ.env.every (cancelJobs cfg ids) (fun _ w' => CancelsAmong cfg all w w') w := by
  intro ids
  induction ids with
  | nil => exact fun _ w hg => .refl hg all
  | cons i ids ih =>
    intro hsub w hg
    obtain ⟨hi, hids⟩ := List.cons_subset.mp hsub
    rw [cancelJobs, wp_bind]
    cases hr : w.store.jobs.lookup i with
    | none =>
      rw [wp_getJob_none hρ hr]
      exact ih hids w hg
    | some r =>
      rw [wp_getJob_some hρ hr]
      simp only [wp_ite]
      split
      · exact ih hids w hg
      · rw [wp_bind]
        refine wp_mono (Env.every_mono _) _ (cancel_leaves hρ hg i) fun _ w₁ h => ?_
        have h : CancelsAmong cfg all w w₁ := h.mono fun x hx => by rwa [List.mem_singleton.mp hx]
        exact wp_mono (Env.every_mono _) _ (ih hids w₁ h.agrees) fun _ w' h' => h.trans h'

/-- **A CancelWorkflow** takes no job out of its state but those of the workflow
`i`, and leaves `i` over. -/
theorem cancelWorkflow_leaves (hg : Agrees cfg w) :
    wp ρ.env.every (cancelWorkflow cfg i) (fun _ w' =>
      (∀ id r, id ∉ w.store.jobsOf i → w.store.jobs.lookup id = some r →
        ∃ r', w'.store.jobs.lookup id = some r' ∧ r'.state = r.state) ∧
      (i ∈ w.store.workflows → i ∈ w'.store.workflows ∧ ¬ w'.flowRuns i)) w := by
  rw [cancelWorkflow, wp_bind, getWorkflow, wp_bind]
  cases hwf : w.store.workflows.lookup i with
  | none =>
    rw [wp_getWorkflowRecord_none hρ hwf]
    refine ⟨fun id r _ hr => ⟨r, hr, rfl⟩, fun hmem => ?_⟩
    rw [← AList.lookup_isSome, hwf] at hmem
    cases hmem
  | some wf =>
    rw [wp_getWorkflowRecord_some hρ hwf]
    simp only [wp_ite, wp_pure]
    split
    · rename_i hover
      refine ⟨fun id r _ hr => ⟨r, hr, rfl⟩, fun hmem => ⟨hmem, fun hruns => ?_⟩⟩
      obtain ⟨wf', hwf', hrun⟩ := hruns
      rw [hwf] at hwf'
      obtain rfl := Option.some.inj hwf'
      have hover : wf.state = .completed ∨ wf.state = .failed ∨ wf.state = .cancelled := hover
      rw [hrun] at hover
      rcases hover with h | h | h <;> cases h
    · rw [wp_bind, getWorkflowJobs, wp_request hρ rfl rfl, wp_bind]
      have hw : w.setStore w.store = w := rfl
      refine wp_mono (Env.every_mono _) _ (cancelJobs_leaves hρ (w.store.jobsOf i) _
        (fun _ h => h) _ hg) fun _ w₁ h => ?_
      rw [wp_bind]
      refine wp_nowFormatted cfg fun t _ => ?_
      rw [wp_bind, wp_updateWorkflow hρ (w := w₁.setClock t) ((h.records i).trans hwf) rfl]
      refine ⟨fun id r hmem hr => h.others id r hmem hr, fun _ => ⟨AList.mem_insert _ |>.mpr (.inl rfl), ?_⟩⟩
      rintro ⟨wf', hwf', hrun⟩
      obtain rfl := Option.some.inj ((AList.lookup_insert _).symm.trans hwf')
      cases hrun

/-! ## Steps -/

/-- **The steps that disturb no workflow.** -/
theorem step_undisturbed (hg : Agrees cfg w) (hs : SystemStep cfg lib ρ w l w')
    (hl : SparesJobs wfID w l) (hjobs : ∀ id r, w.flowJob wfID id = some r →
      r.expiresAt = "" ∧ r.state ≠ .cancelled) : FlowUndisturbed wfID w w' := by
  have hquiet : ∀ id r r', w.flowJob wfID id = some r → w'.flowJob wfID id = some r' →
      Quietly r.state r'.state := by
    intro id r r' hflow hflow'
    obtain ⟨hx, hc⟩ := hjobs id r hflow
    have hr := (flowJob_eq_some.mp hflow).1
    have hr' := (flowJob_eq_some.mp hflow').1
    obtain ⟨r₂, hr₂, hshift⟩ := step_shifts hρ hg hs id r hr
    rw [hr'] at hr₂
    obtain rfl := Option.some.inj hr₂
    rcases hshift with hsame | hshift
    · rw [hsame]
      exact .refl _
    · cases hs with
      | env l hop hs => cases hshift
      | op o a hfresh hdone hrun =>
        have hρ' : (ρ.reserving (o.inUse w)).faults = false := hρ
        cases o with
        | job o =>
          rcases hshift with hedge | hrevive
          · by_cases hpush : ∃ job, o = .push job
            · obtain ⟨job, rfl⟩ := hpush
              have hu : job.unique = none :=
                Option.isNone_iff_eq_none.mp (Option.isSome_eq_false_iff.mp hl.replaces)
              have hkept : ∀ id r, w.store.jobs.lookup id = some r → w'.store.jobs.lookup id = some r :=
                (wp_iff_runs _ _ _ _).mp (push_keeps hρ' hu hfresh.push) a w' hrun
              rw [hkept id r hr] at hr'
              obtain rfl := Option.some.inj hr'
              exact .refl _
            · exact hedge.quietly (a := a) hflow hx hl fun job he => hpush ⟨job, he⟩
          · exact absurd hrevive.2.1 hc
        | cancelWorkflow i =>
          by_cases hmem : id ∈ w.store.jobsOf i
          · have hterm := hl.cancels id hmem r hflow
            rw [hshift.1] at hterm
            cases hterm
          · have h := (wp_iff_runs _ _ _ _).mp (cancelWorkflow_leaves hρ' hg) a w' hrun
            obtain ⟨r₂, hr₂, hsame⟩ := h.1 id r hmem hr
            rw [hr'] at hr₂
            obtain rfl := Option.some.inj hr₂
            rw [hsame]
            exact .refl _
        | _ => cases hshift
  constructor
  · exact fun id r r' hr hterm hr' => (hquiet id r r' hr hr').2 hterm
  · exact fun id r r' hr hterm hr' => (hquiet id r r' hr hr').1 hterm

/-- The step that cancels the workflow. -/
theorem step_cancelsFlow (hg : Agrees cfg w) (hs : SystemStep cfg lib ρ w l w')
    (hl : l.cancelsFlow wfID = true) (hstored : wfID ∈ w.store.workflows) :
    wfID ∈ w'.store.workflows ∧ ¬ w'.flowRuns wfID := by
  cases hs with
  | env l hop hs => cases hl
  | op o a hfresh hdone hrun =>
    cases o with
    | cancelWorkflow i =>
      obtain rfl : i = wfID := of_decide_eq_true hl
      have hρ' : (ρ.reserving (SystemOp.inUse (.cancelWorkflow i) w)).faults = false := hρ
      exact ((wp_iff_runs _ _ _ _).mp (cancelWorkflow_leaves hρ' hg) a w' hrun).2 hstored
    | _ => cases hl

/-- A workflow that is over stays over. -/
theorem step_staysOver (hg : Agrees cfg w) (hid : wfID ≠ "") (hs : SystemStep cfg lib ρ w l w')
    (hl : l.leavesFlow wfID = true ∨ l.cancelsFlow wfID = true) (hstored : wfID ∈ w.store.workflows)
    (hover : ¬ w.flowRuns wfID) : wfID ∈ w'.store.workflows ∧ ¬ w'.flowRuns wfID := by
  rcases hl with hl | hl
  · rcases step_flow hρ hg hid (fun _ => hstored) hs hl with ⟨hf, -⟩ | ⟨e, r, wf, w₁, hm, -⟩
    · refine ⟨hf.stored.mpr hstored, fun hruns => hover ?_⟩
      rw [World.flowRuns, hf.aside.record] at hruns
      exact hruns
    · exact absurd hm.runs hover
  · exact step_cancelsFlow hρ hg hs hl hstored

omit hρ in
/-- The jobs of the workflow neither expire nor were they cancelled. -/
theorem EndedJobs.lasts {es : List Finish} (h : EndedJobs wfID es w) :
    ∀ id r, w.flowJob wfID id = some r → r.expiresAt = "" ∧ r.state ≠ .cancelled := by
  intro id r hr
  refine ⟨h.lasting id r hr, fun hc => ?_⟩
  have hterm : isTerminalState r.state = true := by
    rw [hc]
    rfl
  obtain ⟨e, he, rfl⟩ := List.mem_map.mp ((h.terminal_iff hr).mp hterm)
  obtain ⟨r', hr', hs⟩ := h.ended e he
  rw [hr] at hr'
  obtain rfl := Option.some.inj hr'
  rw [hc, Finish.state] at hs
  split at hs <;> cases hs

end
end
end OjsSqs
