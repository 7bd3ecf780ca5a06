import OjsSqs.Delays.Runs
import OjsSqs.Failures.Counting
import OjsSqs.Fetching.Isolation
import OjsSqs.Lifecycle.Laws
import OjsSqs.System.Shifts

/-! # Jobs that are over

A job is over when nothing can bring it back to a worker: it is completed, or
cancelled without a message, or discarded and not in the dead letter set. It
stays over, whatever clients, workers, promoters, workflows and crons do next. -/
namespace OjsSqs
open Calls

/-- The job is stored, and no later Fetch is to return it. -/
def Over (id : String) (w : World) : Prop :=
  ∃ r, w.store.jobs.lookup id = some r ∧ (r.state = .completed ∨
    r.state = .cancelled ∧ w.sqs.messagesOf id = [] ∨ r.state = .discarded ∧ w.dead id = false)

/-- No place but its record has the job, and a worker is not at it. -/
abbrev Retired (id : String) (w : World) : Prop := ∀ T, Withheld id T w

/-- What a step may change of the job's record: all of it, or nothing when the
job is completed afterwards. -/
def KeepsCompleted (id i : String) (r r' : JobRecord) : Prop := i = id → r' = r ∨ r'.state ≠ .completed

/-- The Fetch returns the job. -/
def Hands (id : String) : SystemLabel → Prop
  | .op (.job (.fetch _ _ _ _ _)) (some jobs) => ∃ job ∈ jobs, job.id = id
  | _ => False

/-- The job as it was. -/
structure KeptJob (r r' : JobRecord) : Prop where
  state : r'.state = r.state
  fixed : r'.fixed = r.fixed
  record : r.state = .completed → r' = r

variable {cfg : Config} {lib : CronLib} {ρ : Rules} {κ : Regime} {id : String} {w w' : World}

theorem KeptJob.refl (r : JobRecord) : KeptJob r r := ⟨rfl, rfl, fun _ => rfl⟩

theorem KeptJob.trans {r r' r'' : JobRecord} (h : KeptJob r r') (h' : KeptJob r' r'') :
    KeptJob r r'' := by
  refine ⟨h'.state.trans h.state, h'.fixed.trans h.fixed, fun hs => ?_⟩
  have hr : r' = r := h.record hs
  rw [h'.record (hr ▸ hs), hr]

/-! ## Over and retired -/

theorem Agrees.retired (hg : Agrees cfg w) (h : Over id w) : Retired id w := by
  intro T
  obtain ⟨r, hr, hs⟩ := h
  have hf : Fits cfg .any [] w.bare id r := hg.fits id r hr
  have hends : r.state = .completed ∨ r.state = .cancelled ∨ r.state = .discarded :=
    hs.imp_right (Or.imp (·.1) (·.1))
  refine ⟨⟨r, hr, ?_, ?_⟩, ?_, ?_, fun i ms hi => ?_⟩
  · intro ha
    simp [ha] at hends
  · intro ha
    simp [ha] at hends
  · rcases hs with hs | ⟨-, hm⟩ | ⟨hs, -⟩
    · have hm := hf.messages
      rw [hs] at hm
      exact List.length_eq_zero_iff.mp (Nat.le_zero.mp hm)
    · exact hm
    · have hm := hf.messages
      rw [hs] at hm
      exact List.length_eq_zero_iff.mp (Nat.le_zero.mp hm)
  · cases hd : w.dead id with
    | false => rfl
    | true =>
      have hdisc : r.state = .discarded := (hf.dead hd).1
      simp [hdisc, hd] at hs
  · have hmark : w.marked i id = true := by
      rw [World.marked, hi]
      rfl
    have hnone : w.marked i id = false := by
      cases i with
      | scheduled =>
        refine hf.scheduled.trans (decide_eq_false fun hs => ?_)
        simp [hs] at hends
      | retry =>
        refine hf.retry.trans (decide_eq_false fun hs => ?_)
        simp [hs] at hends
    rw [hnone] at hmark
    cases hmark

theorem Retired.tickets (h : Retired id w) : w.tickets id = 0 := by
  have hmarked : ∀ i, w.marked i id = false := by
    intro i
    rw [World.marked]
    cases hi : (w.store.due i).lookup id with
    | none => rfl
    | some ms =>
      have hle := (h (ms + 1)).due i ms hi
      omega
  rw [World.tickets, (h 0).messages, hmarked, hmarked]
  rfl

/-! ## One step -/

/-- A job that waits for nothing is not promoted. -/
theorem retired_of_waiting (h : ∀ T, Waiting id T w) : Retired id w := by
  intro T
  have hlater : Waiting id (max T (w.clock.unixMilli + 1)) w := h _
  rcases hlater with hle | hheld
  · have hlt := (le_max_right T (w.clock.unixMilli + 1)).trans hle
    omega
  · exact ⟨hheld.stored, hheld.messages, hheld.dead,
      fun i ms hi => (le_max_left _ _).trans (hheld.due i ms hi)⟩

theorem Retired.bare (h : Retired id w) : Retired id w.bare :=
  fun T => ⟨(h T).stored, (h T).messages, (h T).dead, (h T).due⟩

theorem Retired.of_bare (h : Retired id w.bare) : Retired id w :=
  fun T => ⟨(h T).stored, (h T).messages, (h T).dead, (h T).due⟩

theorem withholding_cancel (id i now : String) : (Writes.withholding id).rewrite i (.cancel now) :=
  fun _ => ⟨fun h => (by cases h), fun h => (by cases h)⟩

section
variable (hρ : ρ.faults = false)
include hρ

/-- **One operation.** -/
theorem op_retired {o : SystemOp} {a : o.Result} (hg : Agrees cfg w) (h : Retired id w)
    (hfresh : o.Fresh w) (hr : Runs (ρ.reserving (o.inUse w)).env (o.prog cfg lib) w a w') :
    Retired id w' := by
  have hρ' : (ρ.reserving (o.inUse w)).faults = false := hρ
  have G : ∀ T, Guards cfg (ρ.reserving (o.inUse w)) (.withholding id)
      fun w => Withheld id T w ∧ w.NamedJobs := fun T => guards_withheld id T
  have hkeep : (∀ T, (ρ.reserving (o.inUse w)).env.Keeps
      (fun w => Withheld id T w ∧ w.NamedJobs) (o.prog cfg lib)) → Retired id w' := by
    intro hk T
    exact (wp_runs (hk T w ⟨h T, hg.named⟩) hr).1
  have hsame : wp (ρ.reserving (o.inUse w)).env.every (o.prog cfg lib) (fun _ w' => w' = w) w →
      Retired id w' := fun hwp => wp_runs hwp hr ▸ h
  cases o with
  | job o =>
    by_cases hack : ∃ i result, o = .ack i result
    · obtain ⟨i, result, rfl⟩ := hack
      by_cases hi : i = id
      · subst hi
        exact hsame (ack_withheld hρ' (h 0) result)
      · exact hkeep fun T => (G T).ack fun _ hii => absurd hii hi
    · by_cases hnack : ∃ i e requeue, o = .nack i e requeue
      · obtain ⟨i, e, requeue, rfl⟩ := hnack
        by_cases hi : i = id
        · subst hi
          exact hsame (nack_withheld hρ' (h 0) e requeue)
        · have hnacks : (Writes.withholding id).Nacks i e requeue :=
            ⟨fun _ _ hii => absurd hii hi, fun _ _ _ hii => absurd hii hi,
              fun _ _ _ hii => absurd hii hi, hi, hi⟩
          exact hkeep fun T => (G T).nack hnacks
      · have hapart := op_apart cfg o (fun i result h => hack ⟨i, result, h⟩)
          fun i e requeue h => hnack ⟨i, e, requeue, h⟩
        have hrun := runs_reserving (List.subset_append_left o.newIDs _) hr
        refine Retired.of_bare (retired_of_waiting fun T => ?_)
        exact op_withheld hρ hg (h.bare T) hfresh (runs_bare hapart.ofJobs hrun).1
  | pauseQueue name =>
    exact hkeep fun T => (G T).within (within_request (c := .setPausedItem name true) trivial rfl)
  | resumeQueue name =>
    exact hkeep fun T => (G T).within (within_request (c := .setPausedItem name false) trivial rfl)
  | heartbeat activeJobs vis =>
    exact hkeep fun T => (G T).within (apart_extendJobs _ activeJobs).within
  | createWorkflow req => exact hkeep fun T => (G T).flows.createWorkflow req
  | cancelWorkflow wfID =>
    refine hkeep fun T => (G T).flows.cancelWorkflow (fun i => ?_) wfID
    exact (G T).within (apart_cancel fun now => withholding_cancel id i now).within
  | registerCron zone cronJob => exact hkeep fun T => (G T).flows.registerCron cronJob
  | deleteCron name => exact hkeep fun T => (G T).flows.deleteCron name
  | fireCronJobs zone => exact hkeep fun T => (G T).flows.fireCronJobs

/-- **One step** leaves a retired job retired. -/
theorem step_retired {l : SystemLabel} (hg : Agrees cfg w) (h : Retired id w)
    (hs : SystemStep cfg lib ρ w l w') : Retired id w' := by
  cases hs with
  | op o a hfresh _ hr => exact op_retired hρ hg h hfresh hr
  | env l hl hs =>
    cases hs with
    | op o a => cases hl
    | expireVisibility m =>
      intro T
      refine (h T).congr rfl ?_ rfl rfl
      refine (SqsState.messagesOf_map (SqsState.same_expired m) id).trans ?_
      rw [(h T).messages]
      rfl
    | ensureDLQ queue url _ hr =>
      intro T
      have h₀ : Withheld id T { w with background := w.background.erase (queue, url) } :=
        (h T).congr rfl (h T).messages rfl rfl
      exact (wp_runs ((guards_withheld id T).within (apart_ensureDLQ queue url).within _
        ⟨h₀, hg.named⟩) hr).1
    | tick t _ => exact fun T => (h T).congr rfl (h T).messages rfl rfl
    | expireKey fp item _ _ => exact fun T => (h T).congr rfl (h T).messages rfl rfl

/-- A Fetch does not find a retired job. -/
theorem fetch_retired {fuel : Nat} {queues : List String} {count vis : Int} {worker : String}
    {a : Option (List Job)} (hg : Agrees cfg w) (h : Retired id w)
    (hs : SystemStep cfg lib ρ w (.op (.job (.fetch fuel queues count worker vis)) a) w') :
    w'.store.jobs.lookup id = w.store.jobs.lookup id ∧
      ¬ Hands id (.op (.job (.fetch fuel queues count worker vis)) a) := by
  cases hs with
  | op o a _ _ hr =>
    have hρ' : (ρ.reserving (SystemOp.inUse (.job (.fetch fuel queues count worker vis)) w)).faults =
        false := hρ
    have hspares := wp_runs (fetch_spares hρ' hg.tidy ((h 0).outOfReach queues)) hr
    refine ⟨hspares.1.2.job, fun hh => ?_⟩
    cases a with
    | none => exact hh
    | some jobs =>
      obtain ⟨job, hj, hid⟩ := hh
      exact hspares.2 jobs rfl job hj hid

/-- Only an Ack of the job completes it, and it needs an active one. -/
theorem step_keepsCompleted {l : SystemLabel} (hg : Agrees cfg w) (h : Retired id w)
    (hs : SystemStep cfg lib ρ w l w') : Relates (KeepsCompleted id) w w' := by
  have hrefl : ∀ i r, KeepsCompleted id i r r := fun _ _ _ => .inl rfl
  by_cases hack : ∃ result a, l = .op (.job (.ack id result)) a
  · obtain ⟨result, a, rfl⟩ := hack
    cases hs with
    | op o a _ _ hr =>
      have hρ' : (ρ.reserving (SystemOp.inUse (.job (.ack id result)) w)).faults = false := hρ
      have hwp : wp (ρ.reserving (SystemOp.inUse (.job (.ack id result)) w)).env.every
          (ack cfg id result) (fun _ w' => w' = w) w := ack_withheld hρ' (h 0) result
      have hsame : w' = w := (wp_iff_runs _ _ _ _).mp hwp a w' hr
      subst hsame
      exact .refl hg.named hrefl
  · refine step_relates hρ hrefl hg.named (fun o a hl i x hx => ?_) hs
    intro r₀ r sk pk _ hi
    refine .inr ?_
    rw [JobRecord.update_state]
    cases hx with
    | ack => exact absurd ⟨_, a, hi ▸ hl⟩ hack
    | _ => exact fun hc => by cases hc

omit hρ in
/-- A record that is over is on no edge of the lifecycle. -/
theorem Over.no_edge {o : Op} {now : Time} {r : JobRecord} {s : JobState} (h : Over id w)
    (hr : w.store.jobs.lookup id = some r) : ¬ Edge cfg w now id r o s := by
  intro he
  obtain ⟨r₁, hr₁, hs⟩ := h
  rw [hr] at hr₁
  cases hr₁
  rcases hs with hs | ⟨hs, -⟩ | ⟨hs, hd⟩
  · exact he.not_final.1 hs
  · exact he.not_final.2 hs
  · cases he <;> simp_all [isTerminalState]

/-- **One step** leaves a job that is over as it is. -/
theorem step_over {l : SystemLabel} {r : JobRecord} (hg : Agrees cfg w) (h : Over id w)
    (hr : w.store.jobs.lookup id = some r) (hs : SystemStep cfg lib ρ w l w') :
    (∃ r', w'.store.jobs.lookup id = some r' ∧ KeptJob r r') ∧ Over id w' ∧ ¬ Hands id l := by
  have hret : Retired id w := hg.retired h
  have hret' : Retired id w' := step_retired hρ hg hret hs
  have hover : ∀ r', w'.store.jobs.lookup id = some r' → KeptJob r r' →
      (∃ r', w'.store.jobs.lookup id = some r' ∧ KeptJob r r') ∧ Over id w' := by
    intro r' hr' hst
    refine ⟨⟨r', hr', hst⟩, r', hr', ?_⟩
    obtain ⟨r₁, hr₁, hends⟩ := h
    rw [hr] at hr₁
    cases hr₁
    rw [hst.state]
    rcases hends with hs | ⟨hs, -⟩ | ⟨hs, -⟩
    · exact .inl hs
    · exact .inr (.inl ⟨hs, (hret' 0).messages⟩)
    · exact .inr (.inr ⟨hs, (hret' 0).dead⟩)
  by_cases hf : ∃ fuel queues count worker vis a,
      l = .op (.job (.fetch fuel queues count worker vis)) a
  · obtain ⟨fuel, queues, count, worker, vis, a, rfl⟩ := hf
    obtain ⟨hsame, hno⟩ := fetch_retired hρ hg hret hs
    obtain ⟨hkept, hover⟩ := hover r (hsame.trans hr) (.refl r)
    exact ⟨hkept, hover, hno⟩
  · have hno : ¬ Hands id l := by
      intro hh
      unfold Hands at hh
      split at hh
      · exact hf ⟨_, _, _, _, _, _, rfl⟩
      · exact hh
    obtain ⟨r', hr', hshift⟩ := step_shifts hρ hg hs id r hr
    obtain ⟨r₁, hr₁, hfixed⟩ := (step_sameJobs hρ hg.named hs).stored id r hr
    obtain ⟨r₂, hr₂, hout⟩ := (step_keepsCompleted hρ hg hret hs).stored id r hr
    rw [hr'] at hr₁ hr₂
    cases hr₁
    cases hr₂
    have hstate : r'.state = r.state := by
      rcases hshift with hsame | hmove
      · exact hsame
      · split at hmove
        · rename_i o a
          rcases hmove with hedge | ⟨-, -, fuel, queues, count, worker, vis, rfl⟩
          · exact absurd hedge (h.no_edge hr)
          · exact absurd ⟨_, _, _, _, _, _, rfl⟩ hf
        · obtain ⟨r₁, hr₁, hends⟩ := h
          rw [hr] at hr₁
          cases hr₁
          rcases hends with hs | ⟨hs, -⟩ | ⟨hs, -⟩ <;> simp [hs, isTerminalState] at hmove
        · exact hmove.elim
    have hst : KeptJob r r' := ⟨hstate, hfixed, fun hc => (hout rfl).resolve_right fun hne =>
      hne (hstate.trans hc)⟩
    obtain ⟨hkept, hover⟩ := hover r' hr' hst
    exact ⟨hkept, hover, hno⟩

theorem run_sameJobs {ls' : List SystemLabel} (hg : Agrees cfg w)
    (h' : Path (SystemStep cfg lib ρ) w ls' w') : Agrees cfg w' ∧ SameJobs w w' := by
  refine h'.keeps (I := fun w' => Agrees cfg w' ∧ SameJobs w w')
    ⟨hg, .refl hg.named fun _ _ => rfl⟩ fun w₁ l w₂ h₁ hs => ?_
  exact ⟨step_agrees hρ h₁.1 hs, h₁.2.trans (step_sameJobs hρ h₁.1.named hs)
    fun _ _ _ _ h h' => h'.trans h⟩

omit hρ in
theorem Agrees.tickets_le (hg : Agrees cfg w) (id : String) : w.tickets id ≤ 1 := by
  cases hr : w.store.jobs.lookup id with
  | none =>
    have hu : Unknown w.bare id := hg.unknown id hr
    have hm : w.sqs.messagesOf id = [] := hu.messages
    have hmarked : ∀ i, w.marked i id = false := hu.marked
    rw [World.tickets, hm, hmarked, hmarked]
    exact Nat.zero_le 1
  | some r =>
    have hf : Fits cfg .any [] w.bare id r := hg.fits id r hr
    exact hf.tickets_le.1

end

/-! ## A completed job that is asked for again -/

/-- The runs' steps: an Ack, and what clients try with the job after it. -/
def ackFirst : SystemAct := .op (.job (.ack "j1" (some "1")))
  [.ok, .tick 0, .ok, .ok, .ok, .ok, .ok, .ok, .ok]
def ackAgain : SystemAct := .op (.job (.ack "j1" (some "2"))) [.ok]
def cancelAgain : SystemAct := .op (.job (.cancel "j1")) [.ok]
def reviveAgain : SystemAct := .op (.job (.retryDeadLetter "j1")) [.ok]
def fetchAgain : SystemAct := .op (.job (.fetch 1 ["default"] 1 "w1" 0)) [.tick 0, .ok, .ok, .deliver []]

theorem play_runs {xs : List SystemAct} {ls : List SystemLabel}
    (h : SystemAct.play cfg lib ρ xs w = some (ls, w')) : Path (SystemStep cfg lib ρ) w ls w' := by
  have hpath : Path (Meeting (fun _ _ => True) (SystemStep cfg lib ρ)) w ls w' :=
    SystemAct.play_path h fun _ _ _ _ _ _ => trivial
  exact hpath.mono fun _ _ _ hs => hs.2

end OjsSqs
