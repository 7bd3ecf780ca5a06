import OjsSqs.Cron.Processes
import OjsSqs.Failures.Records

/-! # The failures of a job, over whole runs

The labels of a run say when a job was stored or brought back from the dead
letter set, and which Nacks it has had since. Its record counts these Nacks and
no others, its history lists their errors, and a count that has reached the
limit has discarded it. -/
namespace OjsSqs
open Calls

/-- What the worker reported, when the step is a failure of the job: a Nack
without requeue that was accepted. -/
def failureOf (id : String) : SystemLabel → Option (Option JobError)
  | .op (.job (.nack i e false)) (.ok _) => if i = id then some e else none
  | _ => none

def failures (id : String) (ls : List SystemLabel) : List (Option JobError) :=
  ls.filterMap (failureOf id)

/-- The history of these failures: one entry for each that came with an error,
in their order, with the number of failures before it. -/
def historyOf (fs : List (Option JobError)) : List RawMessage :=
  fs.zipIdx.flatMap fun (e, n) => (errJSON e n).toList

/-- The step brings the job back from the dead letter set. -/
def Restarts (id : String) : SystemLabel → Prop
  | .op (.job (.retryDeadLetter i)) (.ok _) => i = id
  | _ => False

/-- The step begins the count of the job: it stores the job, or brings it back. -/
def Begins (id : String) (w : World) (l : SystemLabel) (w' : World) : Prop :=
  w.store.jobs.lookup id = none ∧ (w'.store.jobs.lookup id).isSome = true ∨ Restarts id l

/-- The record after the failures `fs`, when it was `r₁` before them. -/
structure FailureCount (r₁ : JobRecord) (fs : List (Option JobError)) (r : JobRecord) : Prop where
  fixed : r.fixed = r₁.fixed
  attempt : r.attempt = fs.length
  history : r.history = r₁.history ++ historyOf fs
  bound : 1 ≤ maxAttemptsOf r₁ → fs.length ≤ maxAttemptsOf r₁
  last : fs ≠ [] → maxAttemptsOf r₁ ≤ fs.length → r.state = .discarded

/-- The outcome of one more failure. -/
def outcomeOf (cfg : Config) (r : JobRecord) (fs : List (Option JobError)) (e : Option JobError) :
    JobState :=
  if fs.length + 1 < maxAttemptsOf r ∧ isNonRetryable cfg e r.retry.unmarshal = false
  then .retryable else .discarded

theorem historyOf_append (fs : List (Option JobError)) (e : Option JobError) :
    historyOf (fs ++ [e]) = historyOf fs ++ (errJSON e fs.length).toList := by
  simp [historyOf, List.zipIdx_append, List.flatMap_append]

theorem maxAttemptsOf_fixed {r r₁ : JobRecord} (h : r.fixed = r₁.fixed) :
    maxAttemptsOf r = maxAttemptsOf r₁ := by
  have hm : maxAttemptsOf r.fixed = maxAttemptsOf r₁.fixed := congrArg maxAttemptsOf h
  exact hm

section
variable {cfg : Config} {r₁ r r' : JobRecord} {fs : List (Option JobError)} {e : Option JobError}

theorem FailureCount.start (h : Unfailed False r₁) : FailureCount r₁ [] r₁ :=
  ⟨rfl, h.attempt, (List.append_nil _).symm, fun hm => by simpa using Int.le_trans (by decide) hm,
    fun hne => absurd rfl hne⟩

/-- Nothing of the count has changed. -/
theorem FailureCount.same (h : FailureCount r₁ fs r) (hf : r'.fixed = r.fixed)
    (ha : r'.attempt = r.attempt) (hh : r'.history = r.history)
    (hs : r.state = .discarded → r'.state = .discarded) : FailureCount r₁ fs r' :=
  ⟨hf.trans h.fixed, ha.trans h.attempt, hh.trans h.history, h.bound,
    fun hne hm => hs (h.last hne hm)⟩

theorem FailureCount.outcome (h : FailureCount r₁ fs r) (hx : Failed cfg e r r') :
    r'.state = outcomeOf cfg r fs e := by
  rw [hx.state, outcomeOf, exhausts, h.attempt]
  by_cases hm : maxAttemptsOf r ≤ fs.length + 1
  · rw [if_pos (by simp [hm]), if_neg fun hlt => absurd hm (not_le.mpr hlt.1)]
  · cases hn : isNonRetryable cfg e r.retry.unmarshal with
    | true => rw [if_pos (by simp), if_neg (by simp)]
    | false => rw [if_neg (by simp [hm]), if_pos ⟨not_le.mp hm, rfl⟩]

/-- One failure more. The job was active, so that the limit was not reached. -/
theorem FailureCount.failed (h : FailureCount r₁ fs r) (hf : r'.fixed = r.fixed)
    (hx : Failed cfg e r r') : FailureCount r₁ (fs ++ [e]) r' := by
  have hlen : ((fs ++ [e]).length : Int) = fs.length + 1 := by simp
  refine ⟨hf.trans h.fixed, ?_, ?_, fun hm => ?_, fun _ hm => ?_⟩
  · rw [hx.attempt, h.attempt, hlen]
  · rw [hx.history, h.history, h.attempt, List.append_assoc, historyOf_append]
  · rw [hlen]
    by_cases hfs : fs = []
    · subst hfs
      exact hm
    · by_contra hlt
      have hd := h.last hfs (by omega)
      rw [hx.active] at hd
      cases hd
  · rw [hlen] at hm
    rw [h.outcome hx, outcomeOf, maxAttemptsOf_fixed h.fixed]
    exact if_neg fun hlt => absurd hm (not_le.mpr hlt.1)

end

section
variable {cfg : Config} {lib : CronLib} {ρ : Rules} (hρ : ρ.faults = false) {w w' : World}
  {l : SystemLabel} {id : String} {r : JobRecord}
include hρ

/-- **One step** is a failure of the job, or leaves its count alone. -/
theorem step_counts (hg : Agrees cfg w) (hs : SystemStep cfg lib ρ w l w')
    (hr : w.store.jobs.lookup id = some r) (hl : ¬ Restarts id l) :
    ∃ r', w'.store.jobs.lookup id = some r' ∧ match failureOf id l with
      | some e => Failed cfg e r r'
      | none => r'.attempt = r.attempt ∧ r'.history = r.history ∧
          (r.state = .discarded → r'.state = .discarded) := by
  by_cases hnack : ∃ e a, l = .op (.job (.nack id e false)) a
  · obtain ⟨e, a, rfl⟩ := hnack
    cases hs with
    | op o _ _ _ hrun =>
      have hρ' : (ρ.reserving (SystemOp.inUse (.job (.nack id e false)) w)).faults = false := hρ
      have h := (wp_iff_runs _ _ _ _).mp (nack_counts hρ' hg e) a w' hrun
      cases a with
      | error err =>
        obtain rfl : w' = w := h
        exact ⟨r, hr, rfl, rfl, fun h => h⟩
      | ok res =>
        obtain ⟨r₀, r', hr₀, hr', hf⟩ := h
        rw [hr] at hr₀
        cases hr₀
        simp only [failureOf, if_true]
        exact ⟨r', hr', hf⟩
  · by_cases hrevive : ∃ a, l = .op (.job (.retryDeadLetter id)) a
    · obtain ⟨a, rfl⟩ := hrevive
      cases hs with
      | op o _ _ _ hrun =>
        have hρ' : (ρ.reserving (SystemOp.inUse (.job (.retryDeadLetter id)) w)).faults = false := hρ
        have h := (wp_iff_runs _ _ _ _).mp (retryDeadLetter_counts hρ') a w' hrun
        cases a with
        | error err => exact ⟨r, h ▸ hr, rfl, rfl, fun h => h⟩
        | ok job => exact absurd rfl hl
    · have hnone : failureOf id l = none := by
        rw [failureOf.eq_def]
        split
        · rename_i i e _
          exact if_neg fun hi => hnack ⟨e, _, by rw [hi]⟩
        · rfl
      rw [hnone]
      -- no rewrite of this step counts a failure of the job
      have hrel := step_relates hρ (R := fun i r₀ r => i = id →
        r.attempt = r₀.attempt ∧ r.history = r₀.history) (fun _ _ _ => ⟨rfl, rfl⟩)
        hg.named (fun o a he i x hx r₀ r sk pk hR hi => ?_) hs
      · obtain ⟨r', hr', hcount⟩ := hrel.stored id r hr
        obtain ⟨r'', hr'', hshift⟩ := step_shifts hρ hg hs id r hr
        rw [hr'] at hr''
        cases hr''
        refine ⟨r', hr', (hcount rfl).1, (hcount rfl).2, fun hd => ?_⟩
        rcases hshift with hshift | hshift
        · exact hshift.trans hd
        · split at hshift
          · rename_i o a
            rcases hshift with hedge | ⟨-, hc, -⟩
            · generalize r'.state = s at hedge
              cases hedge with
              | revive => exact absurd ⟨a, rfl⟩ hrevive
              | _ => simp_all [isTerminalState]
            · rw [hd] at hc
              cases hc
          · rw [hd] at hshift
            cases hshift.1
          · exact hshift.elim
      · subst hi he
        have hsame : x.fails = false ∧ x.restarts = false := by
          cases hx with
          | discard => exact absurd ⟨_, _, rfl⟩ hnack
          | retry => exact absurd ⟨_, _, rfl⟩ hnack
          | revive => exact absurd ⟨_, rfl⟩ hrevive
          | _ => exact ⟨rfl, rfl⟩
        obtain ⟨ha, hh⟩ := Rewrite.same_count cfg r sk pk hsame.1 hsame.2
        exact ⟨ha.trans (hR rfl).1, hh.trans (hR rfl).2⟩

/-- **One step of the count.** -/
theorem FailureCount.step {r₁ : JobRecord} {fs : List (Option JobError)} (hc : FailureCount r₁ fs r)
    (hg : Agrees cfg w) (hs : SystemStep cfg lib ρ w l w')
    (hr : w.store.jobs.lookup id = some r) (hl : ¬ Restarts id l) :
    ∃ r', w'.store.jobs.lookup id = some r' ∧ match failureOf id l with
      | some e => FailureCount r₁ (fs ++ [e]) r' ∧ r'.state = outcomeOf cfg r fs e
      | none => FailureCount r₁ fs r' := by
  obtain ⟨r', hr', hstep⟩ := step_counts hρ hg hs hr hl
  obtain ⟨r'', hr'', hfixed⟩ := (step_sameJobs hρ hg.named hs).stored id r hr
  rw [hr'] at hr''
  cases hr''
  refine ⟨r', hr', ?_⟩
  cases hf : failureOf id l with
  | some e =>
    rw [hf] at hstep
    exact ⟨hc.failed hfixed hstep, hc.outcome hstep⟩
  | none =>
    rw [hf] at hstep
    obtain ⟨ha, hh, hd⟩ := hstep
    exact hc.same hfixed ha hh hd

/-- **Counting.** From the step that stores a job, or brings it back from the
dead letter set, and until it is brought back again. -/
theorem failures_counted {t : Time} {ls₀ ls : List SystemLabel} {l₀ : SystemLabel} {w₀ w₁ : World}
    (h₀ : SystemRun cfg lib ρ t ls₀ w₀) (hs : SystemStep cfg lib ρ w₀ l₀ w₁)
    (hb : Begins id w₀ l₀ w₁)
    (h : Path (Meeting (fun _ l => ¬ Restarts id l) (SystemStep cfg lib ρ)) w₁ ls w) :
    ∃ r₁ r, w₁.store.jobs.lookup id = some r₁ ∧ w.store.jobs.lookup id = some r ∧
      (Clean l₀ → r₁.history = []) ∧ FailureCount r₁ (failures id ls) r ∧
      ∀ l w' e, SystemStep cfg lib ρ w l w' → failureOf id l = some e →
        ∃ r', w'.store.jobs.lookup id = some r' ∧
          r'.state = outcomeOf cfg r (failures id ls) e := by
  have hg₀ : Agrees cfg w₀ := run_agrees hρ h₀
  have hg₁ : Agrees cfg w₁ := step_agrees hρ hg₀ hs
  obtain ⟨r₁, hr₁, hfirst⟩ : ∃ r₁, w₁.store.jobs.lookup id = some r₁ ∧ Unfailed (Clean l₀) r₁ := by
    rcases hb with ⟨hnone, hsome⟩ | hrestart
    · obtain ⟨r₁, hr₁⟩ := Option.isSome_iff_exists.mp hsome
      exact ⟨r₁, hr₁, (stored_unfailed hρ hg₀ hs hnone).unfailed r₁ hr₁⟩
    · rw [Restarts.eq_def] at hrestart
      split at hrestart
      · rename_i i job
        subst hrestart
        cases hs with
        | op o _ _ _ hrun =>
          have hρ' : (ρ.reserving (SystemOp.inUse (.job (.retryDeadLetter i)) w₀)).faults = false := hρ
          have h := (wp_iff_runs _ _ _ _).mp (retryDeadLetter_counts hρ') (.ok job) w₁ hrun
          obtain ⟨r₁, hr₁, hfirst⟩ := h
          exact ⟨r₁, hr₁, hfirst.attempt, fun _ => hfirst.history trivial⟩
      · exact hrestart.elim
  obtain ⟨hg, r, hr, hcounted⟩ : Agrees cfg w ∧ ∃ r, w.store.jobs.lookup id = some r ∧
      FailureCount r₁ (failures id ls) r := by
    refine h.invariant (I := fun ls w => Agrees cfg w ∧ ∃ r, w.store.jobs.lookup id = some r ∧
      FailureCount r₁ (failures id ls) r)
      ⟨hg₁, r₁, hr₁, .start ⟨hfirst.attempt, False.elim⟩⟩ fun ls w l w' ⟨hg, r, hr, hc⟩ ⟨hl, hs⟩ => ?_
    refine ⟨step_agrees hρ hg hs, ?_⟩
    obtain ⟨r', hr', hstep⟩ := hc.step hρ hg hs hr hl
    refine ⟨r', hr', ?_⟩
    rw [failures, List.filterMap_append]
    cases hf : failureOf id l with
    | some e =>
      rw [hf] at hstep
      simp only [List.filterMap_cons, hf, List.filterMap_nil]
      exact hstep.1
    | none =>
      rw [hf] at hstep
      simp only [List.filterMap_cons, hf, List.filterMap_nil, List.append_nil]
      exact hstep
  refine ⟨r₁, r, hr₁, hr, hfirst.history, hcounted, fun l w' e hs hf => ?_⟩
  have hl : ¬ Restarts id l := by
    intro hrestart
    rw [Restarts.eq_def] at hrestart
    split at hrestart
    · cases hf
    · exact hrestart
  obtain ⟨r', hr', hstep⟩ := hcounted.step hρ hg hs hr hl
  rw [hf] at hstep
  exact ⟨r', hr', hstep.2⟩

end

/-! ## A job that fails once -/

def demoError : JobError := { code := "timeout", message := "no answer" }

/-- The runs' steps: a push, a fetch that gets the message `0`, and a failure. -/
def pushFirst : SystemAct :=
  .op (.job (.push demoJob)) [.tick 0, .ok, .ok, .ok, .ok, .ok, .ok, .ok]
def fetchFirst : SystemAct :=
  .op (.job (.fetch 1 ["default"] 1 "w1" 0)) [.tick 0, .ok, .ok, .deliver [0], .ok, .ok, .ok]
def failFirst : SystemAct :=
  .op (.job (.nack "j1" (some demoError) false)) [.ok, .tick 0, .ok, .ok, .ok, .ok, .ok, .ok]

/-- After one failure of three the job is to be tried again. -/
theorem failures_counted_retryable : ∃ (ls : List SystemLabel) (w : World) (r : JobRecord),
    w.store.jobs.lookup "j1" = some r ∧ failures "j1" ls = [some demoError] ∧
    r.state = .retryable ∧ r.attempt = 1 ∧ r.history = [.errorObject (errorObject demoError 0)] := by
  have hrun : ((pushFirst.run demo demoLib {} (.start 0)).bind fun x =>
      (SystemAct.play demo demoLib {} [fetchFirst, failFirst] x.2).map fun y =>
        (demoState x.2, failures "j1" y.1, demoState y.2)) =
      some (some .available, [some demoError], some .retryable) := rfl
  obtain ⟨⟨l₀, w₁⟩, hpush, hrun⟩ := Option.bind_eq_some_iff.mp hrun
  obtain ⟨⟨ls, w⟩, hplay, hrun⟩ := Option.map_eq_some_iff.mp hrun
  obtain ⟨hfirst, hrun⟩ := Prod.mk.inj hrun
  obtain ⟨hfs, hlast⟩ := Prod.mk.inj hrun
  obtain ⟨a, rfl, -⟩ := SystemAct.run_op hpush
  have hok : ∀ x ∈ [fetchFirst, failFirst], ∀ w l w',
      x.run demo demoLib {} w = some (l, w') → ¬ Restarts "j1" l := by
    intro x hx w l w' hr
    simp only [List.mem_cons, List.not_mem_nil, or_false] at hx
    rcases hx with rfl | rfl <;> (obtain ⟨a, rfl, -⟩ := SystemAct.run_op hr; exact id)
  have hstored : (w₁.store.jobs.lookup "j1").isSome = true := by
    obtain ⟨r₁, hr₁, -⟩ := Option.map_eq_some_iff.mp hfirst
    rw [hr₁]
    rfl
  have hbegins : Begins "j1" (World.start 0) (.op (.job (.push demoJob)) a) w₁ :=
    .inl ⟨rfl, hstored⟩
  obtain ⟨r₁, r, hr₁, hr, hclean, hcount, -⟩ := failures_counted rfl .nil
    (SystemAct.run_step hpush) hbegins (SystemAct.play_path hplay hok)
  have hnew : r₁.history = [] := hclean fun job hj => by
    rw [List.mem_singleton.mp hj]
    rfl
  refine ⟨ls, w, r, hr, hfs, ?_, ?_, ?_⟩
  · rw [demoState, hr] at hlast
    exact Option.some.inj hlast
  · rw [hcount.attempt, hfs]
    rfl
  · rw [hcount.history, hnew, hfs]
    rfl

end OjsSqs
