import OjsSqs.System.Shifts

/-! # What the operations do to the count of failures

A record holds the number of the job's failures and the errors that came with
them. A Nack without requeue adds one, a retry from the dead letter set starts
again, and a new record starts at zero; no other rewrite touches either. -/
namespace OjsSqs
open Calls

/-- The errors the job has failed with. -/
def JobRecord.history (r : JobRecord) : List RawMessage := r.errorHistory.unmarshal.getD []

theorem jobToRecord_history (job : Job) : (jobToRecord job).history = job.errors := by
  rw [JobRecord.history, jobToRecord]
  cases job.errors <;> rfl

/-- The record `r'` holds one failure more than `r`. -/
structure Failed (cfg : Config) (e : Option JobError) (r r' : JobRecord) : Prop where
  active : r.state = .active
  attempt : r'.attempt = r.attempt + 1
  history : r'.history = r.history ++ (errJSON e r.attempt).toList
  state : r'.state = if exhausts cfg r e then .discarded else .retryable

/-- The count starts at zero. With `clean` the history starts empty. -/
structure Unfailed (clean : Prop) (r : JobRecord) : Prop where
  attempt : r.attempt = 0
  history : clean → r.history = []

section
variable {cfg : Config} (r : JobRecord) (e : Option JobError)

theorem errorUpdate_count (err : Option RawMessage) :
    (applyUpdates (errorUpdate err) r).attempt = r.attempt ∧
      (applyUpdates (errorUpdate err) r).history = r.history := by
  cases err <;> exact ⟨rfl, rfl⟩

variable {r e}

theorem Failed.discarded (hs : r.state = .active) (hx : exhausts cfg r e = true) (t : String) :
    Failed cfg e r (r.moved .discarded (discardUpdates t r e)) := by
  obtain ⟨hattempt, hhistory⟩ := errorUpdate_count { r with
    state := .discarded
    completedAt := t
    errorHistory := .of (histJSON r e)
    attempt := r.attempt + 1
    sqsReceiptHandle := none } (errJSON e r.attempt)
  exact ⟨hs, hattempt, hhistory, (if_pos hx).symm⟩

theorem Failed.retryable (hs : r.state = .active) (hx : exhausts cfg r e = false) (ms : Int) :
    Failed cfg e r (r.moved .retryable (retryUpdates ms r e)) := by
  obtain ⟨hattempt, hhistory⟩ := errorUpdate_count { r with
    state := .retryable
    errorHistory := .of (histJSON r e)
    attempt := r.attempt + 1
    retryDelayMs := some ms
    sqsReceiptHandle := none } (errJSON e r.attempt)
  exact ⟨hs, hattempt, hhistory, (if_neg (by rw [hx]; decide)).symm⟩

end

/-! ## The other rewrites -/

/-- The rewrite is a failure. -/
def Rewrite.fails : Rewrite → Bool
  | .discard _ _ _ | .retry _ _ _ => true
  | _ => false

/-- The rewrite starts the count again. -/
def Rewrite.restarts : Rewrite → Bool
  | .revive _ => true
  | _ => false

section
variable (cfg : Config) {x : Rewrite} (r : JobRecord) (sk pk : String)

theorem Rewrite.same_count (hf : x.fails = false) (hx : x.restarts = false) :
    (r.update x.state (x.updates cfg) sk pk).attempt = r.attempt ∧
      (r.update x.state (x.updates cfg) sk pk).history = r.history := by
  cases x with
  | discard => cases hf
  | retry => cases hf
  | revive => cases hx
  | complete now result =>
    rw [Rewrite.updates, ackUpdates]
    cases result with
    | none => exact ⟨rfl, rfl⟩
    | some res =>
      rw [resultUpdate]
      split <;> exact ⟨rfl, rfl⟩
  | _ => exact ⟨rfl, rfl⟩

variable {cfg} in
theorem Rewrite.unfailed {clean : Prop} (hf : x.fails = false) {r : JobRecord} {sk pk : String}
    (h : Unfailed clean r) : Unfailed clean (r.update x.state (x.updates cfg) sk pk) := by
  cases hx : x.restarts with
  | true => cases x with
    | revive now => exact ⟨rfl, fun _ => rfl⟩
    | _ => cases hx
  | false =>
    obtain ⟨hattempt, hhistory⟩ := Rewrite.same_count cfg r sk pk hf hx
    exact ⟨hattempt.trans h.attempt, fun hc => hhistory.trans (h.history hc)⟩

end

/-! ## Nack and RetryDeadLetter -/

section
variable {cfg : Config} {ρ : Rules} (hρ : ρ.faults = false) {w : World} {id : String}
  {r : JobRecord}
include hρ

/-- A Nack without requeue is refused, or counts. -/
theorem nack_counts (hg : Agrees cfg w) (e : Option JobError) :
    wp ρ.env.every (nack cfg id e false) (fun a w' => match a with
      | .error _ => w' = w
      | .ok _ => ∃ r r', w.store.jobs.lookup id = some r ∧ w'.store.jobs.lookup id = some r' ∧
          Failed cfg e r r') w := by
  rw [nack, wp_bind]
  cases hr : w.store.jobs.lookup id with
  | none =>
    rw [wp_getJob_none hρ hr]
    rfl
  | some r =>
    rw [wp_getJob_some hρ hr]
    simp only [wp_ite, Bool.false_eq_true, if_false]
    split
    · rfl
    · rename_i hs
      have hs : r.state = .active := not_not.mp hs
      rw [wp_bind]
      refine wp_timeNow fun t _ => ?_
      simp only [wp_ite]
      split
      · rename_i hx
        refine wp_nackDiscard hρ hr ?_
        have hm : Moves cfg .any w.bare (.nack id e false) w.bare
            (w.nackDiscarded cfg id r e t).bare := by
          rw [World.nackDiscarded_bare]
          exact Good.nackDiscarded hg hr hs e t
        have h₀ : Extends (w.nackDiscarded cfg id r e t) (w.nackDiscarded cfg id r e t) :=
          .refl (Good.tidy hm.good).named fun _ _ => rfl
        have hstored : (w.nackDiscarded cfg id r e t).store.jobs.lookup id =
            some (r.moved .discarded (discardUpdates (cfg.formatTime t) r e)) := by
          simp only [World.nackDiscarded]
          split <;> exact World.setJob_lookup id _
        refine wp_mono (Env.every_mono _) _ ((flows_extend _).advanceWorkflowOf id _ _ _ h₀)
          fun _ w' hext _ => ?_
        obtain ⟨r', hr', rfl⟩ := hext.stored id _ hstored
        exact ⟨r, _, rfl, hr', .discarded hs hx _⟩
      · rename_i hx
        have hx := Bool.eq_false_iff.mpr hx
        rw [nackRetry, wp_bind, wp_deleteMessageOf cfg hρ]
        have hr₁ : ((w.setClock t).dropMessage cfg r).store.jobs.lookup id = some r := by
          rw [World.dropMessage_store]
          exact hr
        generalize (w.setClock t).dropMessage cfg r = w₁ at hr₁
        simp only
        rw [wp_bind, wp_updateJobState_some hρ hr₁]
        simp only
        rw [wp_bind, addRetryJob, wp_addDueJob hρ]
        simp only
        have hf := Failed.retryable hs hx
          (Time.milliseconds (cfg.calculateBackoff r.retry.unmarshal (r.attempt + 1)))
        generalize r.moved .retryable _ = r₂ at hf
        generalize Time.unixMilli _ = ms
        have hr₂ : ((w₁.setJob id r₂).addDue .retry id ms).store.jobs.lookup id = some r₂ :=
          World.setJob_lookup id r₂
        rw [wp_bind, wp_info_some hρ hr₂]
        exact ⟨r, r₂, rfl, hr₂, hf⟩

/-- A RetryDeadLetter is refused, or starts the count again. -/
theorem retryDeadLetter_counts :
    wp ρ.env.every (retryDeadLetter cfg id) (fun a w' => match a with
      | .error _ => w'.store.jobs = w.store.jobs
      | .ok _ => ∃ r', w'.store.jobs.lookup id = some r' ∧ Unfailed True r') w := by
  rw [retryDeadLetter, wp_bind, wp_isInDeadLetter hρ, wp_ite]
  split
  · rw [wp_bind]
    refine wp_timeNow fun t _ => ?_
    rw [wp_bind]
    cases hr : w.store.jobs.lookup id with
    | none =>
      rw [wp_getJob_none hρ (w := w.setClock t) hr]
      rfl
    | some r =>
      have hr₁ : ((w.setClock t).removeDead id).store.jobs.lookup id = some r := hr
      rw [wp_getJob_some hρ (w := w.setClock t) hr]
      simp only
      rw [wp_bind, wp_removeFromDeadLetter hρ, wp_bind, wp_updateJobState_some hρ hr₁, wp_bind,
        wp_sendToSQS cfg hρ]
      have hr₂ : ((((w.setClock t).removeDead id).setJob id
          (r.moved .available (deadLetterUpdates cfg t))).sendJob cfg
          (deadLetterJob cfg t r)).store.jobs.lookup id =
          some (r.moved .available (deadLetterUpdates cfg t)) := by
        rw [World.sendJob_store]
        exact World.setJob_lookup id _
      rw [wp_info_some hρ hr₂]
      exact ⟨_, hr₂, rfl, fun _ => rfl⟩
  · rfl

end

/-! ## New jobs -/

/-- The writes that leave the count of the job `id` at zero. -/
def Writes.unfailed (clean : Prop) (id : String) : Writes where
  rewrite i x := i = id → x.fails = false
  create r := Unfailed clean r
  carry es := clean → es = []
  send _ := True
  mark _ _ := True
  bury _ := True

/-- The job is not stored, or has not failed. -/
structure NotFailed (clean : Prop) (id : String) (w : World) : Prop where
  named : w.NamedJobs
  unfailed : ∀ r, w.store.jobs.lookup id = some r → Unfailed clean r

section
variable {cfg : Config} {lib : CronLib} {ρ : Rules} {clean : Prop} {w w' : World} {id : String}

theorem NotFailed.call {c : Call} {a : Answer c} (h : NotFailed clean id w)
    (hc : (Writes.unfailed clean id).allows cfg c) (he : ρ.env c w a w') :
    NotFailed clean id w' := by
  refine ⟨Rules.env_named he h.named, fun r hr => ?_⟩
  by_cases hw : c.writesJob = some id
  · cases c with
    | dynamo d =>
      obtain ⟨ch, s', -, hact, rfl⟩ := Rules.env_dynamo he
      rcases Store.act_cases hact with hrun | rfl
      · obtain rfl : s' = (w.store.run d).2 := congrArg Prod.snd hrun
        cases d with
        | putJobItem x =>
          cases hw
          rw [World.setStore, Store.run, AList.lookup_insert] at hr
          cases hr
          exact hc
        | updateJobItem i st us sk pk =>
          cases hw
          obtain ⟨x, hx, rfl, rfl⟩ := hc
          rw [World.setStore, Store.run, AList.lookup_insert] at hr
          cases hr
          refine Rewrite.unfailed (hx rfl) ?_
          cases hl : w.store.jobs.lookup id with
          | none => exact ⟨rfl, fun _ => rfl⟩
          | some r => exact h.unfailed r hl
        | _ => cases hw
      · exact h.unfailed r hr
    | sqs c => cases hw
    | proc c => cases hw
  · rw [Rules.env_job hw he] at hr
    exact h.unfailed r hr

theorem guards_unfailed : Guards cfg ρ (.unfailed clean id) (NotFailed clean id) where
  keeps _ _ _ _ hc h he := h.call hc he
  stores _ job _ _ hnew he := by
    refine ⟨fun s t _ => ⟨hnew, fun hc => ?_⟩, trivial, fun _ _ => trivial⟩
    rw [jobToRecord_history]
    exact he.elim (fun h => h) (fun h => h hc)
  named _ h := h.named

/-- The clients' jobs of the step come without errors. -/
def Clean : SystemLabel → Prop
  | .op o _ => ∀ job ∈ o.newJobs, job.errors = []
  | .env _ => True

/-- A job that a step stores has not failed. -/
theorem stored_unfailed (hρ : ρ.faults = false) (hg : Agrees cfg w) {l : SystemLabel}
    (hs : SystemStep cfg lib ρ w l w') (hnone : w.store.jobs.lookup id = none) :
    NotFailed (Clean l) id w' := by
  have h₀ : NotFailed (Clean l) id w := ⟨hg.named, fun r hr => by
    rw [hnone] at hr
    cases hr⟩
  cases hs with
  | op o a hfresh _ hr =>
    have hρ' : (ρ.reserving (o.inUse w)).faults = false := hρ
    by_cases hnack : ∃ e, o = .job (.nack id e false)
    · obtain ⟨e, rfl⟩ := hnack
      have h := (wp_iff_runs _ _ _ _).mp (nack_counts hρ' hg e) a w' hr
      cases a with
      | error err =>
        obtain rfl : w' = w := h
        exact h₀
      | ok res =>
        obtain ⟨r, -, hr', -⟩ := h
        rw [hnone] at hr'
        cases hr'
    · have hadmits : (Writes.unfailed (Clean (.op o a)) id).Admits o := by
        refine ⟨fun i x hx hi => ?_, fun _ => trivial, fun _ _ => trivial, fun _ => trivial,
          fun job hj hc => hc job hj⟩
        subst hi
        cases hx with
        | discard => exact absurd ⟨_, rfl⟩ hnack
        | retry => exact absurd ⟨_, rfl⟩ hnack
        | _ => rfl
      exact guards_unfailed.op hρ hadmits h₀ hfresh hr
  | env l hl hs =>
    exact guards_unfailed.env (fun w₁ w₂ hj h => ⟨fun i r hr => h.named i r (hj ▸ hr),
      fun r hr => h.unfailed r (hj ▸ hr)⟩) h₀ hl hs

end

end OjsSqs
