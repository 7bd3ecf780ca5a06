import OjsSqs.System.Records

/-! # The states a step takes jobs to

A stored job is after every step of the backend in the state it was in, or an
operation on jobs has taken it along an edge of the lifecycle. The other
operations change no stored job, but for the jobs `CancelWorkflow` cancels. -/
namespace OjsSqs
open Calls

/-- How a step may take a job with the record `r` to the state `s`. -/
def Shift (cfg : Config) (w : World) (now : Time) (l : SystemLabel) (id : String) (r : JobRecord)
    (s : JobState) : Prop :=
  s = r.state ∨ match l with
    | .op (.job o) _ => Edge cfg w now id r o s ∨ Revives .any r o
    | .op (.cancelWorkflow _) _ => isTerminalState r.state = false ∧ s = .cancelled
    | _ => False

/-- Every stored job has shifted. -/
def Shifts (cfg : Config) (l : SystemLabel) (w w' : World) : Prop :=
  ∀ id r, w.store.jobs.lookup id = some r → ∃ r', w'.store.jobs.lookup id = some r' ∧
    Shift cfg w w'.clock l id r r'.state

variable {cfg : Config} {lib : CronLib} {ρ : Rules} {w w' : World} {l : SystemLabel} {id : String}

theorem shifts_of_extends (h : Extends w w') : Shifts cfg l w w' := by
  intro id r hr
  obtain ⟨r', hr', rfl⟩ := h.stored id r hr
  exact ⟨_, hr', .inl rfl⟩

theorem Shifts.refl (hg : Agrees cfg w) : Shifts cfg l w w :=
  shifts_of_extends (.refl hg.named fun _ _ => rfl)

theorem Edge.bare {now : Time} {r : JobRecord} {o : Op} {s : JobState}
    (h : Edge cfg w.bare now id r o s) : Edge cfg w now id r o s := by
  cases h with
  | due h => exact .due h
  | retry h => exact .retry h
  | fetch h => exact .fetch h
  | expire h hx => exact .expire h hx
  | complete h => exact .complete h
  | fail h => exact .fail h
  | discard h => exact .discard h
  | requeue h => exact .requeue h
  | cancel h => exact .cancel h
  | replace h => exact .replace h
  | revive h hd => exact .revive h hd

theorem Roams.shifts {o : Op} {a : o.Result}
    (h : Roams cfg .any w.bare w'.clock o w.bare w'.bare) : Shifts cfg (.op (.job o) a) w w' := by
  intro id r hr
  obtain ⟨r', hr', -, hs⟩ := h id r hr
  refine ⟨r', hr', ?_⟩
  rcases hs with hs | hs | hs
  · exact .inl hs
  · exact .inr (.inl hs.bare)
  · exact .inr (.inr hs)

/-- After a move no stored job was changed. -/
theorem Moves.then_extends {o : Op} {a : o.Result} {w₁ : World}
    (ho : ∀ fuel queues count worker vis, o ≠ .fetch fuel queues count worker vis)
    (h : Moves cfg .any w.bare o w.bare w₁.bare) (hx : Extends w₁ w') :
    Shifts cfg (.op (.job o) a) w w' := by
  intro id r hr
  obtain ⟨r₁, hr₁, -, hs⟩ := h.roams id r hr
  obtain ⟨r', hr', rfl⟩ := hx.stored id r₁ hr₁
  refine ⟨_, hr', ?_⟩
  rcases hs with hs | hs | hs
  · exact .inl hs
  · exact .inr (.inl (hs.timeless ho).bare)
  · exact .inr (.inr hs)

section
variable (hρ : ρ.faults = false)
include hρ

theorem ack_shifts (hg : Agrees cfg w) {result : Option String} :
    wp ρ.env.every (ack cfg id result)
      (fun a w' => Shifts cfg (.op (.job (.ack id result)) a) w w') w := by
  cases hr : w.store.jobs.lookup id with
  | none =>
    rw [ack, wp_bind, wp_getJob_none hρ hr]
    exact .refl hg
  | some r =>
    refine wp_ack hρ hr (fun _ => .refl hg)
      fun hs t _ => ?_
    have hm : Moves cfg .any w.bare (.ack id result) w.bare (w.acked cfg id r result t).bare := by
      rw [World.acked_bare]
      exact Good.acked hg hr hs result t
    have h₀ : Extends (w.acked cfg id r result t) (w.acked cfg id r result t) :=
      .refl (Good.tidy hm.good).named fun _ _ => rfl
    refine wp_mono (Env.every_mono _) _ ((flows_extend _).advanceWorkflowOf id _ _ _ h₀) ?_
    exact fun _ w' hx _ => hm.then_extends (fun _ _ _ _ _ h => by cases h) hx

theorem nack_shifts (hg : Agrees cfg w) {e : Option JobError} {requeue : Bool} :
    wp ρ.env.every (nack cfg id e requeue)
      (fun a w' => Shifts cfg (.op (.job (.nack id e requeue)) a) w w') w := by
  have hsame : ∀ a, Shifts cfg (.op (.job (.nack id e requeue)) a) w w := fun _ => .refl hg
  rw [nack, wp_bind]
  cases hr : w.store.jobs.lookup id with
  | none =>
    rw [wp_getJob_none hρ hr]
    exact hsame _
  | some r =>
    rw [wp_getJob_some hρ hr]
    simp only [wp_ite]
    split
    · exact hsame _
    · rename_i hs
      have hs : r.state = .active := not_not.mp hs
      rw [wp_bind]
      refine wp_timeNow fun t _ => ?_
      simp only [wp_ite]
      split
      · rename_i hq
        subst hq
        have hm := wp_bare (apart_nackRequeue (W := .all) fun _ => trivial).ofJobs
          (w := w.setClock t) (nackRequeue_moves hρ hg hr hs t e)
        exact wp_mono (Env.every_mono _) _ hm fun _ _ h => h.1.roams.shifts
      · rename_i hq
        rw [Bool.eq_false_iff.mpr hq]
        split
        · refine wp_nackDiscard hρ hr ?_
          have hm : Moves cfg .any w.bare (.nack id e false) w.bare
              (w.nackDiscarded cfg id r e t).bare := by
            rw [World.nackDiscarded_bare]
            exact Good.nackDiscarded hg hr hs e t
          have h₀ : Extends (w.nackDiscarded cfg id r e t) (w.nackDiscarded cfg id r e t) :=
            .refl (Good.tidy hm.good).named fun _ _ => rfl
          refine wp_mono (Env.every_mono _) _ ((flows_extend _).advanceWorkflowOf id _ _ _ h₀) ?_
          exact fun _ w' hx _ => hm.then_extends (fun _ _ _ _ _ h => by cases h) hx
        · have hm := wp_bare (apart_nackRetry (W := .all) (fun _ => trivial) trivial).ofJobs
            (w := w.setClock t) (nackRetry_moves hρ hg hr hs t e)
          exact wp_mono (Env.every_mono _) _ hm fun _ _ h => h.1.roams.shifts

/-- A cancel of the workflow's jobs. -/
theorem cancelWorkflow_shifts {wfID : String} (hg : Agrees cfg w) :
    wp ρ.env.every (cancelWorkflow cfg wfID)
      (fun a w' => Shifts cfg (.op (.cancelWorkflow wfID) a) w w') w := by
  let I := fun w' : World => Agrees cfg w' ∧
    ∀ a, Shifts cfg (.op (.cancelWorkflow wfID) a) w w'
  have hnext : ∀ w₁ w₂ : World, I w₁ → Agrees cfg w₂ → (∀ id r, w₁.store.jobs.lookup id = some r →
      ∃ r', w₂.store.jobs.lookup id = some r' ∧
        (r'.state = r.state ∨ isTerminalState r.state = false ∧ r'.state = .cancelled)) → I w₂ := by
    intro w₁ w₂ h₁ hg₂ hmove
    refine ⟨hg₂, fun a id r hr => ?_⟩
    obtain ⟨r₁, hr₁, hs₁⟩ := h₁.2 a id r hr
    obtain ⟨r₂, hr₂, hs₂⟩ := hmove id r₁ hr₁
    refine ⟨r₂, hr₂, ?_⟩
    rcases hs₁ with hs₁ | ⟨hterm, hs₁⟩
    · rw [hs₁] at hs₂
      exact hs₂
    · rcases hs₂ with hs₂ | ⟨hterm₂, -⟩
      · exact .inr ⟨hterm, hs₂.trans hs₁⟩
      · rw [hs₁] at hterm₂
        cases hterm₂
  have F : FlowKeeps cfg ρ I := by
    have hstay : ∀ w₁ w₂ : World, I w₁ → Agrees cfg w₂ → Extends w₁ w₂ → I w₂ :=
      fun w₁ w₂ h₁ hg₂ hx => hnext w₁ w₂ h₁ hg₂ fun id r hr => by
        obtain ⟨r', hr', rfl⟩ := hx.stored id r hr
        exact ⟨_, hr', .inl rfl⟩
    refine ⟨fun c w₁ a w₂ hc h₁ he => ?_, fun job hid hu he w₁ h₁ => ?_⟩
    · have hx₁ : Extends w₁ w₁ := .refl h₁.1.named fun _ _ => rfl
      have hflows : FlowKeeps cfg ρ (Extends w₁) := flows_extend w₁
      exact hstay w₁ w₂ h₁ ((flows_agree hρ).calls c w₁ a w₂ hc h₁.1 he)
        (hflows.calls c w₁ a w₂ hc hx₁ he)
    · have hx₁ : Extends w₁ w₁ := .refl h₁.1.named fun _ _ => rfl
      refine (wp_iff_runs _ _ _ _).mpr fun a w₂ hr => hstay w₁ w₂ h₁ ?_ ?_
      · exact (wp_iff_runs _ _ _ _).mp ((flows_agree hρ).push job hid hu he w₁ h₁.1) a w₂ hr
      · exact (wp_iff_runs _ _ _ _).mp ((flows_extend w₁).push job hid hu he w₁ hx₁) a w₂ hr
  have hcancel : ∀ i, ρ.env.Keeps I (cancel cfg i) := by
    intro i w₁ h₁
    have hapart : Apart cfg .all (cancel cfg i) := apart_cancel fun _ => trivial
    have hm := wp_bare hapart.ofJobs
      (cancel_moves hρ w₁.bare (.cancel i) (fun _ _ h => .cancel h) h₁.1 (.inl rfl))
    refine wp_mono (Env.every_mono _) _ hm fun _ w₂ h => hnext w₁ w₂ h₁ h.1.1.good fun id r hr => ?_
    obtain ⟨r', hr', -, hs⟩ := h.1.1.roams id r hr
    refine ⟨r', hr', ?_⟩
    rcases hs with hs | hs | ⟨-, -, _, _, _, _, _, ho⟩
    · exact .inl hs
    · generalize hs' : r'.state = s at hs
      cases hs with
      | cancel hterm => exact .inr ⟨hterm, rfl⟩
    · cases ho
  have h₀ : I w := ⟨hg, fun _ => .refl hg⟩
  exact wp_mono (Env.every_mono _) _ (F.cancelWorkflow hcancel wfID w h₀) fun a _ h => h.2 a

/-- **One step.** -/
theorem step_shifts (hg : Agrees cfg w) (hs : SystemStep cfg lib ρ w l w') :
    Shifts cfg l w w' := by
  have hx : ∀ (o : SystemOp) (a : o.Result), (∀ id x, ¬ o.Makes id x) → l = .op o a →
      Shifts cfg l w w' := by
    intro o a hno hl
    subst hl
    refine shifts_of_extends (step_relates hρ (fun _ _ => rfl) hg.named ?_ hs)
    intro o' a' he id x hx
    cases he
    exact absurd hx (hno id x)
  cases hs with
  | op o a hfresh hdone hr =>
    have hρ' : (ρ.reserving (o.inUse w)).faults = false := hρ
    cases o with
    | job o =>
      by_cases hack : ∃ id result, o = .ack id result
      · obtain ⟨id, result, rfl⟩ := hack
        exact (wp_iff_runs _ _ _ _).mp (ack_shifts hρ' hg) a w' hr
      · by_cases hnack : ∃ id e requeue, o = .nack id e requeue
        · obtain ⟨id, e, requeue, rfl⟩ := hnack
          exact (wp_iff_runs _ _ _ _).mp (nack_shifts hρ' hg) a w' hr
        · have hapart := op_apart cfg o (fun id result h => hack ⟨id, result, h⟩)
            fun id e requeue h => hnack ⟨id, e, requeue, h⟩
          have hrun := runs_reserving (List.subset_append_left o.newIDs _) hr
          have hallow : Allows cfg ρ .any w.bare (.op o a) := ⟨.inl rfl, fun h => by cases h⟩
          have hm : Moves cfg .any w.bare o w.bare w'.bare :=
            op_moves hρ (fun h => by cases h) hg hallow hfresh (runs_bare hapart.ofJobs hrun).1
          exact hm.roams.shifts
    | cancelWorkflow id => exact (wp_iff_runs _ _ _ _).mp (cancelWorkflow_shifts hρ' hg) a w' hr
    | _ => exact hx _ a (fun _ _ h => by cases h) rfl
  | env l hop hs =>
    refine shifts_of_extends ?_
    have h₀ : Extends w w := .refl hg.named fun _ _ => rfl
    exact (guards_relates w).env (fun _ _ hj h => h.congr hj) h₀ hop hs

end
end OjsSqs
