import OjsSqs.Lifecycle.Arrive

/-! # What a Push does

Without failures the part of a Push that stores the new job has one outcome:
the record, the marker of a scheduled job, the queue, and the message of a job
for now, unless it is too large for one. -/
namespace OjsSqs
open Calls

variable (cfg : Config)

/-- The job with what a Push sets first. -/
def assigned (now : Time) (id : String) (job : Job) : Job :=
  { job with id := id, createdAt := cfg.formatTime now, attempt := 0 }

/-- The rest of a Push. -/
def pushAssigned (now : Time) (job : Job) : M (Except Error Job) := do
  match job.unique with
  | none => pushNew cfg now job
  | some policy =>
    match ← pushUnique cfg policy job with
    | .error e => return .error e
    | .ok (some existing) => return .ok existing
    | .ok none => pushNew cfg now (sortUniqueKeys policy job)

theorem push_eq (job : Job) : push cfg job = timeNow >>= fun now =>
    assignID job >>= fun id => pushAssigned cfg now (assigned cfg now id job) := rfl

/-- The job as it is stored: scheduled, or available. -/
def newJob (now : Time) (job : Job) : Job :=
  match futureInstant cfg now job with
  | some _ => { job with state := .scheduled, enqueuedAt := cfg.formatTime now }
  | none => { job with state := .available, enqueuedAt := cfg.formatTime now }

/-- The world after the new job was stored. -/
def World.pushed (now : Time) (job : Job) (w : World) : World :=
  let stored := w.setJob job.id (jobToRecord (newJob cfg now job))
  match futureInstant cfg now job with
  | some t => (stored.addDue .scheduled job.id t.unixMilli).registerQueue job.queue
  | none => (stored.registerQueue job.queue).sendJob cfg (newJob cfg now job)

/-- A job for now that is too large is stored, and then an error. -/
def pushAnswer (now : Time) (job : Job) : Except Error Job :=
  match futureInstant cfg now job with
  | some _ => .ok (newJob cfg now job)
  | none => match encodeJob cfg (newJob cfg now job) with
    | .error e => .error (.wrap "send to SQS" e)
    | .ok _ => .ok (newJob cfg now job)

section
variable {cfg} {w : World} {now : Time} {job : Job}

@[simp] theorem newJob_id : (newJob cfg now job).id = job.id := by
  rw [newJob]
  split <;> rfl

@[simp] theorem newJob_queue : (newJob cfg now job).queue = job.queue := by
  rw [newJob]
  split <;> rfl

@[simp] theorem pushed_jobs : (w.pushed cfg now job).store.jobs =
    w.store.jobs.insert job.id (jobToRecord (newJob cfg now job)) := by
  rw [World.pushed]
  split
  · rw [World.registerQueue_jobs]
    rfl
  · rw [World.sendJob_store, World.registerQueue_jobs]
    rfl

@[simp] theorem pushed_queues : (w.pushed cfg now job).store.queues =
    (w.registerQueue job.queue).store.queues := by
  rw [World.pushed]
  split
  · simp only [World.registerQueue, World.addDue, World.setJob, Store.setDue, World.setQueues]
    split <;> simp_all
  · rw [World.sendJob_store]
    simp only [World.registerQueue, World.setJob, World.setQueues]
    split <;> simp_all

@[simp] theorem pushed_workflows : (w.pushed cfg now job).store.workflows = w.store.workflows := by
  rw [World.pushed]
  split
  · simp only [World.registerQueue, World.setQueues]
    split <;> rfl
  · rw [World.sendJob_store]
    simp only [World.registerQueue, World.setQueues]
    split <;> rfl

end

section
variable {cfg} {ρ : Rules} (hρ : ρ.faults = false) {w : World} {now : Time}
include hρ

theorem wp_pushNew {job : Job} (Q : Except Error Job → World → Prop) :
    wp ρ.env.every (pushNew cfg now job) Q w = Q (pushAnswer cfg now job) (w.pushed cfg now job) := by
  have hqueue : (newJob cfg now job).queue = job.queue := newJob_queue
  have hid : (jobToRecord (newJob cfg now job)).id = job.id := newJob_id
  rw [pushNew, pushAnswer, World.pushed]
  cases hf : futureInstant cfg now job with
  | some t =>
    simp only [newJob, hf] at hqueue hid ⊢
    rw [pushScheduled, wp_bind, wp_putJob hρ]
    simp only
    rw [wp_bind, addScheduledJob, wp_addDueJob hρ]
    simp only
    rw [wp_bind, wp_registerQueue hρ]
    rfl
  | none =>
    simp only [newJob, hf] at hqueue hid ⊢
    rw [pushAvailable, wp_bind, wp_putJob hρ]
    simp only
    rw [wp_bind, wp_registerQueue hρ]
    simp only
    rw [wp_bind, wp_sendToSQS cfg hρ, hid]
    cases encodeJob cfg _ <;> rfl

/-- Nobody holds the key, and the new job takes it. -/
theorem wp_pushUnique_free {policy : UniquePolicy} {job : Job}
    {Q : Except Error (Option Job) → World → Prop}
    (hkey : w.store.uniqueKeys.lookup (computeFingerprint cfg policy job) = none)
    (h : ∀ t, ρ.mayShow w t → Q (.ok none) ((w.setClock t).setUniqueKeys
      (w.store.uniqueKeys.insert (computeFingerprint cfg policy job)
        ⟨job.id, t.unix + uniqueTTL cfg policy⟩))) :
    wp ρ.env.every (pushUnique cfg policy job) Q w := by
  rw [pushUnique, wp_bind, findExisting, wp_bind, wp_getUniqueKey_none hρ hkey]
  simp only [wp_pure]
  rw [wp_bind]
  refine wp_claimUniqueKey hρ (fun item _ hk => ?_) fun t _ ht => h t ht
  rw [hkey] at hk
  cases hk

/-- A Push of a job without a unique policy. -/
theorem wp_push_plain {job : Job} {Q : Except Error Job → World → Prop} (hu : job.unique = none)
    (hfresh : job.id = "" ∨ w.store.jobs.lookup job.id = none)
    (h : ∀ t i, ρ.mayShow w t → w.store.jobs.lookup i = none → (i = job.id ∨ i ∉ ρ.reserved) →
      i ≠ "" → Q (pushAnswer cfg t (assigned cfg t i job))
        ((w.setClock t).pushed cfg t (assigned cfg t i job))) :
    wp ρ.env.every (push cfg job) Q w := by
  rw [push_eq, wp_bind]
  refine wp_timeNow fun t ht => ?_
  rw [wp_bind]
  refine wp_assignID hfresh fun i hi hres hne => ?_
  have hplain : (assigned cfg t i job).unique = none := hu
  rw [pushAssigned, hplain]
  exact (wp_pushNew hρ Q).mpr (h t i ht hi hres hne)

end
end OjsSqs
