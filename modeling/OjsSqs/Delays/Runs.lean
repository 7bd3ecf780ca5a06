import OjsSqs.Atomic.Steps
import OjsSqs.Delays.Operations
import Mathlib.Logic.Relation

/-! # No early delivery

A Push for a later instant and a Nack that plans a retry leave the job withheld
until the instant they announce. -/
namespace OjsSqs
open Calls

/-- The states the system may reach from one it is in. -/
def Later (cfg : Config) (ρ : Rules) : World → World → Prop :=
  Relation.ReflTransGen fun w w' => ∃ l, Step cfg ρ w l w'

/-- From this state on, a Fetch returns the job only when `t` has come, in
milliseconds. -/
def NotBefore (cfg : Config) (ρ : Rules) (id : String) (t : Time) (w : World) : Prop :=
  ∀ w₁ w₂ fuel queues count worker vis jobs, Later cfg ρ w w₁ →
    Step cfg ρ w₁ (.op (.fetch fuel queues count worker vis) (some jobs)) w₂ →
    ∀ job ∈ jobs, job.id = id → t.unixMilli ≤ w₁.clock.unixMilli

variable {cfg : Config} {ρ : Rules} {κ : Regime} {id : String} {T : Int} {w w' : World}

/-! ## Steps and runs -/

theorem Withheld.congr (h : Withheld id T w) (hj : w'.store.jobs = w.store.jobs)
    (hm : w'.sqs.messagesOf id = [])
    (hd : w'.store.deadLetters = w.store.deadLetters) (hdue : w'.store.due = w.store.due) :
    Withheld id T w' := by
  refine ⟨?_, hm, ?_, ?_⟩
  · rw [hj]
    exact h.stored
  · rw [World.dead, hd]
    exact h.dead
  · rw [hdue]
    exact h.due

theorem step_clock {l : Label} (hs : Step cfg ρ w l w') : w.clock ≤ w'.clock := by
  cases hs with
  | op o a _ _ hr => exact runs_clock hr
  | ensureDLQ queue url _ hr =>
    have hle := runs_clock hr
    exact hle
  | tick t ht => exact ht
  | _ => exact le_refl _

/-- **One step.** -/
theorem step_waiting (hρ : ρ.faults = false) {l : Label} (hg : Good cfg κ [] w)
    (h : Waiting id T w) (hs : Step cfg ρ w l w') : Waiting id T w' := by
  rcases h with h | h
  · exact .inl (h.trans (Time.unixMilli_mono (step_clock hs)))
  · cases hs with
    | op o a hfresh _ hr => exact op_withheld hρ hg h hfresh hr
    | expireVisibility m =>
      refine .inr (h.congr rfl ?_ rfl rfl)
      refine (SqsState.messagesOf_map (SqsState.same_expired m) id).trans ?_
      rw [h.messages]
      rfl
    | ensureDLQ queue url _ hr =>
      have h₀ : Withheld id T { w with background := w.background.erase (queue, url) } :=
        h.congr rfl h.messages rfl rfl
      exact .inr (wp_runs ((guards_withheld id T).within (apart_ensureDLQ queue url).within _
        ⟨h₀, hg.tidy.named⟩) hr).1
    | tick t _ => exact .inr (h.congr rfl h.messages rfl rfl)
    | expireKey fp item _ _ => exact .inr (h.congr rfl h.messages rfl rfl)

/-- **Every run.** -/
theorem later_waiting (hρ : ρ.faults = false) (hg : Good cfg ⟨true, false⟩ [] w)
    (h : Waiting id T w) (hl : Later cfg ρ w w') :
    Good cfg ⟨true, false⟩ [] w' ∧ Waiting id T w' := by
  induction hl with
  | refl => exact ⟨hg, h⟩
  | @tail w₁ w₂ _ hs ih =>
    obtain ⟨l, hs⟩ := hs
    have hallow : Allows cfg ρ ⟨true, false⟩ w₁ l := ⟨.inl rfl, fun h => by cases h⟩
    exact ⟨(step_good hρ (fun h => by cases h) ih.1 hallow hs).1, step_waiting hρ ih.1 ih.2 hs⟩

/-- A Fetch does not return a job that is still withheld. -/
theorem Waiting.notBefore (hρ : ρ.faults = false) {t : Time} (hg : Good cfg ⟨true, false⟩ [] w)
    (h : Waiting id t.unixMilli w) : NotBefore cfg ρ id t w := by
  intro w₁ w₂ fuel queues count worker vis jobs hl hs job hj hid
  obtain ⟨hg₁, hw₁⟩ := later_waiting hρ hg h hl
  refine hw₁.resolve_right fun hheld => ?_
  cases hs with
  | op o a _ _ hr =>
    have hρ' : (ρ.reserving (Op.fetch fuel queues count worker vis).newIDs).faults = false := hρ
    have hspares := wp_runs (fetch_spares hρ' hg₁.tidy (hheld.outOfReach queues)) hr
    exact hspares.2 jobs rfl job hj hid

/-! ## How a job gets withheld -/

/-- A marker shows that the job waits for it. -/
theorem Good.withheld (hg : Good cfg κ [] w) {i : DueIndex}
    (hm : (w.store.due i).lookup id = some T) : Withheld id T w := by
  have hmark : w.marked i id = true := by
    rw [World.marked, hm]
    rfl
  cases hr : w.store.jobs.lookup id with
  | none =>
    rw [(hg.unknown id hr).marked] at hmark
    cases hmark
  | some r =>
    have hf := hg.fits id r hr
    have hsch := hf.scheduled
    have hret := hf.retry
    -- the marker's state has no message, and no other marker goes with it
    have hwaits : (r.state = .scheduled ∨ r.state = .retryable) ∧ ∀ j, j ≠ i → w.marked j id = false := by
      cases i with
      | scheduled =>
        have hs : r.state = .scheduled := of_decide_eq_true (hsch ▸ hmark)
        refine ⟨.inl hs, fun j hj => ?_⟩
        cases j with
        | scheduled => exact absurd rfl hj
        | retry => rw [hret, hs, decide_eq_false (by decide)]
      | retry =>
        have hs : r.state = .retryable := of_decide_eq_true (hret ▸ hmark)
        refine ⟨.inr hs, fun j hj => ?_⟩
        cases j with
        | scheduled => rw [hsch, hs, decide_eq_false (by decide)]
        | retry => exact absurd rfl hj
    obtain ⟨hs, hother⟩ := hwaits
    refine ⟨⟨r, hr, ?_⟩, ?_, ?_, fun j ms hj => ?_⟩
    · rcases hs with hs | hs <;> exact ⟨by rw [hs]; decide, by rw [hs]; decide⟩
    · have hlen := hf.messages
      rcases hs with hs | hs <;>
        exact List.length_eq_zero_iff.mp (Nat.le_zero.mp (by rw [hs] at hlen; exact hlen))
    · cases hd : w.dead id with
      | false => rfl
      | true =>
        rcases hs with hs | hs <;> (have hdis := (hf.dead hd).1; rw [hs] at hdis; cases hdis)
    · by_cases hji : j = i
      · subst hji
        rw [hm] at hj
        exact le_of_eq (Option.some.inj hj)
      · have hnone := hother j hji
        rw [World.marked, hj] at hnone
        cases hnone

section
variable (hρ : ρ.faults = false)
include hρ

/-- A Push that gives an existing job back gives back one that was stored. -/
theorem pushUnique_existing (hn : w.NamedJobs) (policy : UniquePolicy) (job : Job) :
    wp ρ.env.every (pushUnique cfg policy job)
      (fun a _ => ∀ j, a = .ok (some j) → w.store.jobs.lookup j.id ≠ none) w := by
  have hnot : ∀ j, (.ok none : Except Error (Option Job)) = .ok (some j) →
      w.store.jobs.lookup j.id ≠ none := fun _ hj => by cases hj
  have herror : ∀ e j, (.error e : Except Error (Option Job)) = .ok (some j) →
      w.store.jobs.lookup j.id ≠ none := fun _ _ hj => by cases hj
  have hresolve : ∀ fp i, wp ρ.env.every (resolveConflict cfg policy fp i)
      (fun a _ => ∀ j, a = .ok (some j) → w.store.jobs.lookup j.id ≠ none) w := by
    intro fp i
    rw [resolveConflict, wp_bind]
    cases hr : w.store.jobs.lookup i with
    | none =>
      rw [wp_getJob_none hρ hr]
      exact hnot
    | some r =>
      rw [wp_getJob_some hρ hr]
      simp only [wp_ite]
      split
      · split
        · exact herror _
        · split
          · intro j hj
            cases hj
            change w.store.jobs.lookup r.id ≠ none
            rw [hn i r hr, hr]
            exact Option.some_ne_none r
          · split
            · rw [wp_bind]
              refine wp_always _ _ (fun a w' => ?_) w
              cases a with
              | error e =>
                rw [wp_ite]
                split
                · exact hnot
                · exact herror _
              | ok _ => exact hnot
            · exact hnot
      · exact hnot
  rw [pushUnique, wp_bind]
  have hfind : wp ρ.env.every (findExisting cfg policy (computeFingerprint cfg policy job))
      (fun a _ => ∀ j, a = .ok (some j) → w.store.jobs.lookup j.id ≠ none) w := by
    rw [findExisting, wp_bind]
    cases hk : w.store.uniqueKeys.lookup (computeFingerprint cfg policy job) with
    | none =>
      rw [wp_getUniqueKey_none hρ hk]
      exact hnot
    | some item =>
      rw [wp_getUniqueKey_some hρ hk]
      simp only [wp_ite]
      split
      · exact hnot
      · exact hresolve _ _
  refine wp_mono (Env.every_mono _) _ hfind fun a w₁ ha => ?_
  cases a with
  | error e => exact herror e
  | ok found => cases found with
    | some j => exact fun j' hj' => by cases hj'; exact ha j rfl
    | none =>
      simp only
      rw [wp_bind]
      refine wp_always _ _ (fun a w₂ => ?_) w₁
      cases a with
      | error e => exact herror e
      | ok _ => exact hnot

/-- A new job for the instant `t`: it is marked for `t`, or `t` is over. -/
theorem pushNew_marks {job : Job} {now t : Time} (hsch : job.scheduledAt ≠ "")
    (hparse : cfg.parseRFC3339 job.scheduledAt = some t) (hnow : now ≤ w.clock) :
    wp ρ.env.every (pushNew cfg now job) (fun a w' => ∀ j, a = .ok j → j.id = job.id ∧
      (t.unixMilli ≤ w'.clock.unixMilli ∨
        (w'.store.due .scheduled).lookup job.id = some t.unixMilli)) w := by
  rw [pushNew, futureInstant, if_neg hsch, hparse]
  simp only
  by_cases hlt : now < t
  · rw [if_pos hlt]
    simp only
    rw [pushScheduled]
    simp only
    rw [wp_bind, wp_putJob hρ]
    simp only
    rw [wp_bind, addScheduledJob, wp_addDueJob hρ]
    simp only
    rw [wp_bind, wp_registerQueue hρ]
    intro j hj
    cases hj
    refine ⟨rfl, .inr ?_⟩
    have hdue : ∀ (name : String) (w : World), (w.registerQueue name).store.due = w.store.due := by
      intro name w
      rw [World.registerQueue]
      split <;> rfl
    rw [hdue]
    simp only [World.addDue, Store.setDue, Function.update_self]
    exact AList.lookup_insert _
  · rw [if_neg hlt]
    simp only
    refine (wp_iff_runs _ _ _ _).mpr fun a w' hr j hj => ⟨?_, .inl ?_⟩
    · have hid : wp ρ.env.every (pushAvailable cfg now job)
          (fun a _ => ∀ j, a = .ok j → j.id = job.id) w := by
        rw [pushAvailable]
        simp only
        rw [wp_bind, wp_putJob hρ]
        simp only
        rw [wp_bind, wp_registerQueue hρ]
        simp only
        rw [wp_bind, wp_sendToSQS cfg hρ]
        cases encodeJob cfg { job with state := .available, enqueuedAt := cfg.formatTime now } with
        | error e => exact fun j hj => by cases hj
        | ok body =>
          intro j hj
          cases hj
          rfl
      exact wp_runs hid hr j hj
    · exact Time.unixMilli_mono ((not_lt.mp hlt).trans (hnow.trans (runs_clock hr)))

/-- A Push answers with the job it has stored, or with one that was there. -/
theorem wp_push_new {job : Job} {P : Job → World → Prop} (hn : w.NamedJobs)
    (hfresh : job.id = "" ∨ w.store.jobs.lookup job.id = none)
    (hnew : ∀ (new : Job) (now : Time) (w₁ : World), new.retry = job.retry →
      new.maxAttempts = job.maxAttempts → new.scheduledAt = job.scheduledAt → now ≤ w₁.clock →
      wp ρ.env.every (pushNew cfg now new) (fun a w' => ∀ j, a = .ok j → P j w') w₁) :
    wp ρ.env.every (push cfg job)
      (fun a w' => ∀ j, a = .ok j → w.store.jobs.lookup j.id = none → P j w') w := by
  rw [push, wp_bind]
  refine wp_timeNow fun now _ => ?_
  rw [wp_bind]
  refine wp_assignID hfresh fun i _ _ _ => ?_
  simp only
  cases job.unique with
  | none =>
    exact wp_mono (Env.every_mono _) _ (hnew _ now _ rfl rfl rfl (le_refl _)) fun a w' h j hj _ => h j hj
  | some policy =>
    simp only
    rw [wp_bind]
    have hn' : (w.setClock now).NamedJobs := hn
    refine (wp_iff_runs _ _ _ _).mpr fun a w₁ hr => ?_
    have hexisting := wp_runs (pushUnique_existing hρ hn' policy _) hr
    have hclock : now ≤ w₁.clock := by
      have hle := runs_clock hr
      exact hle
    cases a with
    | error e => exact fun j hj => by cases hj
    | ok found => cases found with
      | some existing =>
        intro j hj hnone
        cases hj
        exact absurd hnone (hexisting existing rfl)
      | none =>
        exact wp_mono (Env.every_mono _) _ (hnew _ now w₁ rfl rfl rfl hclock)
          fun a w' h j hj _ => h j hj

/-- A Push of a new job for the instant `t`. -/
theorem push_marks {job : Job} {t : Time} (hn : w.NamedJobs)
    (hfresh : job.id = "" ∨ w.store.jobs.lookup job.id = none) (hsch : job.scheduledAt ≠ "")
    (hparse : cfg.parseRFC3339 job.scheduledAt = some t) :
    wp ρ.env.every (push cfg job) (fun a w' => ∀ j, a = .ok j → w.store.jobs.lookup j.id = none →
      t.unixMilli ≤ w'.clock.unixMilli ∨
        (w'.store.due .scheduled).lookup j.id = some t.unixMilli) w := by
  refine wp_push_new hρ hn hfresh fun new now w₁ _ _ hsch' hclock => ?_
  rw [← hsch'] at hsch hparse
  refine wp_mono (Env.every_mono _) _ (pushNew_marks hρ hsch hparse hclock) fun a w' h j hj => ?_
  rw [(h j hj).1]
  exact (h j hj).2

/-- What a Nack reports when it plans a retry: `now` and the backoff make the
next attempt. -/
structure Planned (cfg : Config) (r : JobRecord) (resp : NackResponse) (now next : Time) : Prop where
  planned : next = now + cfg.calculateBackoff r.retry.unmarshal (r.attempt + 1)
  reported : resp.nextAttemptAt = cfg.formatTime next

/-- A Nack that makes the job retryable marks it for the attempt it reports. -/
theorem nack_marks (e : Option JobError) (requeue : Bool) :
    wp ρ.env.every (nack cfg id e requeue) (fun a w' => ∀ resp, a = .ok resp →
      resp.state = .retryable → ∃ r now next, w.store.jobs.lookup id = some r ∧ ρ.mayShow w now ∧
        Planned cfg r resp now next ∧ (w'.store.due .retry).lookup id = some next.unixMilli) w := by
  rw [nack, wp_bind]
  cases hr : w.store.jobs.lookup id with
  | none =>
    rw [wp_getJob_none hρ hr]
    exact fun resp hresp => by cases hresp
  | some r =>
    rw [wp_getJob_some hρ hr]
    simp only [wp_ite]
    split
    · exact fun resp hresp => by cases hresp
    · rw [wp_bind]
      refine wp_timeNow fun now hnow => ?_
      simp only [wp_ite]
      split
      · -- a requeue makes the job available
        rw [nackRequeue, wp_bind, wp_releaseMessage cfg hρ]
        simp only
        rw [wp_bind]
        refine wp_always _ _ (fun a w₁ => ?_) _
        cases a with
        | error e => exact fun resp hresp => by cases hresp
        | ok _ =>
          simp only
          rw [wp_bind]
          refine wp_always _ _ (fun a w₂ => ?_) _
          cases a with
          | error e => exact fun resp hresp => by cases hresp
          | ok job =>
            intro resp hresp hs
            cases hresp
            cases hs
      · split
        · rw [nackDiscard, wp_bind, wp_deleteMessageOf cfg hρ]
          simp only
          rw [wp_bind]
          refine wp_always _ _ (fun a w₁ => ?_) _
          cases a with
          | error e => exact fun resp hresp => by cases hresp
          | ok _ =>
            simp only
            rw [wp_bind]
            refine wp_always _ _ (fun a w₂ => ?_) _
            cases a with
            | error e => exact fun resp hresp => by cases hresp
            | ok _ =>
              simp only
              rw [wp_bind]
              refine wp_always _ _ (fun _ w₃ => ?_) _
              rw [wp_bind]
              refine wp_always _ _ (fun a w₄ => ?_) _
              cases a with
              | error e => exact fun resp hresp => by cases hresp
              | ok job =>
                intro resp hresp hs
                cases hresp
                cases hs
        · rw [nackRetry, wp_bind, wp_deleteMessageOf cfg hρ]
          simp only
          have hr₁ : ((w.setClock now).dropMessage cfg r).store.jobs.lookup id = some r := by
            rw [World.dropMessage_store]
            exact hr
          rw [wp_bind, wp_updateJobState_some hρ hr₁]
          simp only
          rw [wp_bind, addRetryJob, wp_addDueJob hρ]
          simp only
          rw [wp_bind]
          refine wp_info hρ fun a => ?_
          cases a with
          | error e => exact fun resp hresp => by cases hresp
          | ok job =>
            intro resp hresp _
            cases hresp
            refine ⟨r, now, _, rfl, hnow, ⟨rfl, rfl⟩, ?_⟩
            simp only [World.addDue, Store.setDue, Function.update_self]
            exact AList.lookup_insert _

end

/-! ## The law -/

/-- What a step promises about the jobs it postpones: a job pushed for `t`, and
a job whose next attempt a Nack reports. -/
structure KeepsPromises (cfg : Config) (ρ : Rules) (w : World) (l : Label) (w' : World) : Prop where
  scheduled : ∀ job j t, l = .op (.push job) (.ok j) → w.store.jobs.lookup j.id = none →
    job.scheduledAt ≠ "" → cfg.parseRFC3339 job.scheduledAt = some t → NotBefore cfg ρ j.id t w'
  retry : ∀ id e requeue resp, l = .op (.nack id e requeue) (.ok resp) → resp.state = .retryable →
    ∃ r now next, w.store.jobs.lookup id = some r ∧ ρ.mayShow w now ∧
      Planned cfg r resp now next ∧ NotBefore cfg ρ id next w'

/-- **No early delivery.** In every run without failing calls, whatever steps
it takes, no Fetch returns a job before the instant it was pushed for, nor
before the next attempt that a Nack reported. -/
theorem no_early_delivery (hρ : ρ.faults = false) (hreach : Reachable cfg ρ anyLabel w) {l : Label}
    (hs : Step cfg ρ w l w') : KeepsPromises cfg ρ w l w' := by
  have hallow : ∀ w l, anyLabel w l → Allows cfg ρ ⟨true, false⟩ w l :=
    fun _ _ _ => ⟨.inl rfl, fun h => by cases h⟩
  have hg := reachable_good hρ (fun h => by cases h) hallow hreach
  have hg' := (step_good hρ (fun h => by cases h) hg (hallow w l trivial) hs).1
  constructor
  · rintro job j t rfl hnew hsch hparse
    cases hs with
    | op o a hfresh _ hr =>
      have hρ' : (ρ.reserving (Op.push job).newIDs).faults = false := hρ
      have hmark := wp_runs (push_marks hρ' hg.tidy.named hfresh.push hsch hparse) hr j rfl hnew
      exact Waiting.notBefore hρ hg' (hmark.imp_right hg'.withheld)
  · rintro id e requeue resp rfl hstate
    cases hs with
    | op o a hfresh _ hr =>
      have hρ' : (ρ.reserving (Op.nack id e requeue).newIDs).faults = false := hρ
      obtain ⟨r, now, next, hr₀, hnow, hplan, hmark⟩ :=
        wp_runs (nack_marks hρ' e requeue) hr resp rfl hstate
      exact ⟨r, now, next, hr₀, hnow, hplan, Waiting.notBefore hρ hg' (.inr (hg'.withheld hmark))⟩

theorem play_later {xs : List Act} (h : Act.play cfg ρ xs w = some w') : Later cfg ρ w w' := by
  induction xs generalizing w with
  | nil =>
    cases h
    exact .refl
  | cons x xs ih =>
    rw [Act.play] at h
    split at h
    · rename_i l w₁ hr
      exact .head ⟨l, Act.run_step hr⟩ (ih h)
    · cases h

/-- What a step of the demo run answers: the next attempt of a Nack, the jobs of a Fetch. -/
def Label.nextAttempt : Label → Option (JobState × String)
  | .op (.nack _ _ _) (.ok resp) => some (resp.state, resp.nextAttemptAt)
  | _ => none
def Label.fetched : Label → Option (List String)
  | .op (.fetch _ _ _ _ _) (some jobs) => some (jobs.map (·.id))
  | _ => none

/-- The promoted job of the demo run is fetched again. -/
def fetchPromoted : Act := .op (.fetch 1 ["default"] 1 "w1" 0)
  [.tick second, .ok, .ok, .deliver [1], .ok, .ok, .ok]

/-- The job of the demo run fails, and is fetched again when it is due. -/
theorem no_early_delivery_retry : ∃ (w w₁ w₂ : World) (jobs : List Job),
    Later demo {} (.start 0) w ∧ NotBefore demo {} "j1" second w ∧ Later demo {} w w₁ ∧
    Step demo {} w₁ (.op (.fetch 1 ["default"] 1 "w1" 0) (some jobs)) w₂ ∧
    jobs.map (·.id) = ["j1"] ∧ second.unixMilli ≤ w₁.clock.unixMilli := by
  have hrun : ((Act.play demo {} [pushDemo, fetchDemo] (.start 0)).bind fun w₀ =>
      (failDemo.run demo {} w₀).bind fun x =>
        (Act.play demo {} [.tick second, promoteDemo] x.2).bind fun w₁ =>
          (fetchPromoted.run demo {} w₁).map fun y => (x.1.nextAttempt, y.1.fetched)) =
      some (some (.retryable, "1970-01-01T00:00:01.000Z"), some ["j1"]) := rfl
  obtain ⟨w₀, hplay, hrun⟩ := Option.bind_eq_some_iff.mp hrun
  obtain ⟨⟨l, w⟩, hfail, hrun⟩ := Option.bind_eq_some_iff.mp hrun
  obtain ⟨w₁, hpromote, hrun⟩ := Option.bind_eq_some_iff.mp hrun
  obtain ⟨⟨l', w₂⟩, hfetch, hend⟩ := Option.map_eq_some_iff.mp hrun
  obtain ⟨hnext, hfetched⟩ := Prod.mk.inj hend
  have hfailed := Act.run_step hfail
  have hstep := Act.run_step hfetch
  obtain ⟨a, rfl, -⟩ := Act.run_op hfail
  obtain ⟨a', rfl, -⟩ := Act.run_op hfetch
  cases a with
  | error e => cases hnext
  | ok resp =>
    cases a' with
    | none => cases hfetched
    | some jobs =>
      obtain ⟨hstate, hat⟩ := Prod.mk.inj (Option.some.inj hnext)
      have hreach : Reachable demo {} anyLabel w₀ :=
        Act.play_reachable (.start 0) hplay fun _ _ _ _ _ _ => trivial
      obtain ⟨r, now, next, -, -, hplan, hnot⟩ :=
        (no_early_delivery rfl hreach hfailed).retry _ _ _ resp rfl hstate
      have hsecond : next = second := by
        have htime : demoTime next = "1970-01-01T00:00:01.000Z" := hplan.reported.symm.trans hat
        rw [demoTime] at htime
        split at htime
        · exact absurd htime (by decide)
        · split at htime
          · assumption
          · split at htime <;> exact absurd htime (by decide)
      subst hsecond
      have hlater := play_later hpromote
      have hids : jobs.map (·.id) = ["j1"] := Option.some.inj hfetched
      obtain ⟨job, hjob, hid⟩ := List.mem_map.mp (hids ▸ List.mem_singleton_self "j1")
      exact ⟨w, w₁, w₂, jobs, (play_later hplay).tail ⟨_, hfailed⟩, hnot, hlater, hstep, hids,
        hnot w₁ w₂ _ _ _ _ _ jobs hlater hstep job hjob hid⟩

end OjsSqs
