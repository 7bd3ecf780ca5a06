import OjsSqs.Atomic.Steps
import OjsSqs.Cron.Processes
import OjsSqs.Fetching.Returned
import OjsSqs.System.Writes

/-! # Pausing a queue, and the names queues share

A pause is kept under the queue's own name, while the messages are under its
SQS name, and different names may have one SQS name. Where the queues a Fetch
reads have SQS names of their own it returns jobs of these queues only, and
leaves the jobs of a paused queue alone. -/
namespace OjsSqs
open Calls

/-- The queues a Fetch reads share their SQS names with no other queue that has
jobs, nor with the dead letter queue of one: SQS moves its messages there. -/
def TellsApart (cfg : Config) (queues : List String) (w : World) : Prop :=
  ∀ queue ∈ queues, w.paused queue = false → ∀ id r, w.store.jobs.lookup id = some r →
    (sqsQueueName cfg r.queue = sqsQueueName cfg queue → r.queue = queue) ∧
      sqsDLQName cfg r.queue ≠ sqsQueueName cfg queue

/-- Every Fetch step tells the queues apart. -/
def FetchesApart (cfg : Config) (w : World) : SystemLabel → Prop
  | .op (.job (.fetch _ queues _ _ _)) _ => TellsApart cfg queues w
  | _ => True

/-- What pausing promises of a step: a Fetch returns jobs of queues that it was
asked for and that are not paused, and no job of a paused queue becomes active. -/
structure RespectsPause (w : World) (l : SystemLabel) (w' : World) : Prop where
  returned : ∀ fuel queues count worker vis jobs,
    l = .op (.job (.fetch fuel queues count worker vis)) (some jobs) →
      ∀ job ∈ jobs, job.queue ∈ queues ∧ w.paused job.queue = false
  activated : ∀ id r', w'.store.jobs.lookup id = some r' → r'.state = .active →
    w.paused r'.queue = true → ∃ r, w.store.jobs.lookup id = some r ∧ r.state = .active

variable {cfg : Config} {lib : CronLib} {ρ : Rules} {w w' : World} {id : String}

/-! ## The queue of a returned job -/

/-- The records are the jobs' own, and are in the queues they were in. -/
structure InPlace (t₀ t : Table JobRecord) : Prop where
  named : ∀ id r, t.lookup id = some r → r.id = id
  queue : ∀ id, (t.lookup id).map (·.queue) = (t₀.lookup id).map (·.queue)

theorem InPlace.insert {t₀ t : Table JobRecord} (h : InPlace t₀ t) {r : JobRecord} {s : JobState}
    {us : List JobUpdate} (hr : t.lookup id = some r) : InPlace t₀ (t.insert id (r.moved s us)) := by
  refine ⟨fun i x hx => ?_, fun i => ?_⟩
  · by_cases hi : i = id
    · subst hi
      rw [AList.lookup_insert] at hx
      cases hx
      exact (JobRecord.moved_id r s us).trans (h.named i r hr)
    · rw [AList.lookup_insert_ne hi] at hx
      exact h.named i x hx
  · rw [← h.queue i]
    by_cases hi : i = id
    · subst hi
      rw [AList.lookup_insert, hr]
      exact congrArg some (JobRecord.moved_queue r s us)
    · rw [AList.lookup_insert_ne hi]

/-- A Fetch returns a job in the queue its record has. -/
theorem handsOut_queue (hρ : ρ.faults = false) (worker : String) (t₀ : Table JobRecord) :
    HandsOut cfg ρ worker (InPlace t₀) fun job =>
      (t₀.lookup job.id).map (·.queue) = some job.queue := by
  intro now url d w hJ
  rw [fetchMessage]
  cases hb : d.body with
  | none => exact ⟨hJ, fun _ hj => by cases hj⟩
  | some job =>
    simp only [wp_ite]
    cases hr : w.store.jobs.lookup job.id with
    | none =>
      split
      · rw [wp_bind, wp_updateJobState_none hρ hr, wp_bind, wp_sqs hρ rfl]
        exact ⟨hJ, fun _ hj => by cases hj⟩
      · rw [wp_bind, wp_updateJobState_none hρ hr]
        exact ⟨hJ, fun _ hj => by cases hj⟩
    | some r =>
      split
      · rw [wp_bind, wp_updateJobState_some hρ hr, wp_bind, wp_sqs hρ rfl]
        exact ⟨hJ.insert hr, fun _ hj => by cases hj⟩
      · rw [wp_bind, wp_updateJobState_some hρ hr]
        simp only
        rw [wp_bind, wp_getJob_some hρ (World.setJob_lookup _ _)]
        refine ⟨hJ.insert hr, fun j hj => ?_⟩
        cases hj
        have hid : (recordToJob (r.moved .active (activeUpdates cfg now worker d))).id = job.id :=
          (JobRecord.moved_id r .active _).trans (hJ.named job.id r hr)
        rw [hid, ← hJ.queue, hr]
        exact congrArg some (JobRecord.moved_queue r .active _).symm

/-! ## Fetch -/

theorem Agrees.tidy (hg : Agrees cfg w) : Tidy w := ⟨hg.sound.sqs, hg.named⟩

/-- A job whose messages a Fetch may find is in one of the queues it reads. -/
theorem Agrees.within_reach {queues : List String} (hg : Agrees cfg w)
    (happart : TellsApart cfg queues w) (hreach : ¬ OutOfReach cfg queues id w) :
    ∃ r, w.store.jobs.lookup id = some r ∧ r.queue ∈ queues ∧ w.paused r.queue = false := by
  simp only [OutOfReach, not_forall, not_not] at hreach
  obtain ⟨queue, hq, hp, m, hm, hurl⟩ := hreach
  cases hr : w.store.jobs.lookup id with
  | none =>
    have hnil : w.sqs.messagesOf id = [] := (hg.unknown id hr).messages
    rw [hnil] at hm
    cases hm
  | some r =>
    have habout : m.queueURL = sqsQueueName cfg r.queue := ((hg.fits id r hr).about m hm).queueURL
    have hurlOf : w.urlOf cfg queue = sqsQueueName cfg queue := hg.sound.urlOf queue
    have hsame := (happart queue hq hp id r hr).1 (habout.symm.trans (hurl.trans hurlOf))
    exact ⟨r, rfl, hsame ▸ hq, hsame ▸ hp⟩

theorem fetch_respects (hρ : ρ.faults = false) (hg : Agrees cfg w) {fuel : Nat}
    {queues : List String} {count vis : Int} {worker : String} {a : Option (List Job)}
    (happart : TellsApart cfg queues w)
    (hr : Runs ρ.env (fetch cfg fuel queues count worker vis) w a w') :
    RespectsPause w (.op (.job (.fetch fuel queues count worker vis)) a) w' := by
  have hspares : ∀ i, OutOfReach cfg queues i w →
      w'.store.jobs.lookup i = w.store.jobs.lookup i ∧ ∀ l, a = some l → ∀ job ∈ l, job.id ≠ i := by
    intro i hout
    have h := wp_runs (fetch_spares hρ hg.tidy hout) hr
    exact ⟨h.1.2.job, h.2⟩
  have hreturned := wp_runs ((handsOut_queue hρ worker w.store.jobs).fetch hρ
    ⟨hg.named, fun _ => rfl⟩) hr
  refine ⟨fun _ _ _ _ _ jobs hl job hj => ?_, fun i r' hr' hs hp => ?_⟩
  · cases hl
    have hqueue := hreturned.2 jobs rfl job hj
    obtain ⟨r, hr, hmem, hnp⟩ := hg.within_reach happart fun hout =>
      (hspares job.id hout).2 jobs rfl job hj rfl
    rw [hr] at hqueue
    rw [← Option.some.inj hqueue]
    exact ⟨hmem, hnp⟩
  · by_cases hout : OutOfReach cfg queues i w
    · exact ⟨r', (hspares i hout).1 ▸ hr', hs⟩
    · obtain ⟨r, hr, -, hnp⟩ := hg.within_reach happart hout
      have hqueue := hreturned.1.queue i
      rw [hr, hr'] at hqueue
      have hqueue : r'.queue = r.queue := Option.some.inj hqueue
      rw [hqueue, hnp] at hp
      cases hp

/-! ## The other steps -/

/-- The writes that make no job active. -/
def Writes.inactive : Writes where
  rewrite _ x := x.state ≠ .active
  create r := r.state ≠ .active
  carry _ := True
  send _ := True
  mark _ _ := True
  bury _ := True

/-- Every active job was active in `w₀`. -/
structure NewlyIdle (w₀ w : World) : Prop where
  named : w.NamedJobs
  active : ∀ id r, w.store.jobs.lookup id = some r → r.state = .active →
    ∃ r₀, w₀.store.jobs.lookup id = some r₀ ∧ r₀.state = .active

theorem NewlyIdle.call {w₀ : World} {c : Call} {a : Answer c} (h : NewlyIdle w₀ w)
    (hc : Writes.inactive.allows cfg c) (he : ρ.env c w a w') : NewlyIdle w₀ w' := by
  refine ⟨Rules.env_named he h.named, fun i r hr hs => ?_⟩
  by_cases hw : c.writesJob = some i
  · cases c with
    | dynamo d =>
      obtain ⟨ch, s', -, hact, rfl⟩ := Rules.env_dynamo he
      rcases Store.act_cases hact with hrun | rfl
      · obtain rfl : s' = (w.store.run d).2 := congrArg Prod.snd hrun
        -- the record the call writes is not active
        cases d with
        | putJobItem x =>
          cases hw
          rw [World.setStore, Store.run, AList.lookup_insert] at hr
          cases hr
          exact absurd hs hc
        | updateJobItem k st us sk pk =>
          cases hw
          obtain ⟨x, hx, rfl, -⟩ := hc
          rw [World.setStore, Store.run, AList.lookup_insert] at hr
          cases hr
          exact absurd hs hx
        | _ => cases hw
      · exact h.active i r hr hs
    | sqs c => cases hw
    | proc c => cases hw
  · rw [Rules.env_job hw he] at hr
    exact h.active i r hr hs

theorem guards_inactive (w₀ : World) : Guards cfg ρ .inactive (NewlyIdle w₀) where
  keeps _ _ _ _ hc h he := h.call hc he
  stores _ job _ _ _ _ := by
    refine ⟨fun s t hs => ?_, trivial, fun _ _ => trivial⟩
    rcases hs with rfl | rfl <;> exact nofun
  named _ h := h.named

/-- Only a Fetch makes jobs active. -/
theorem op_inactive (hρ : ρ.faults = false) (hg : Agrees cfg w) {o : SystemOp} {a : o.Result}
    (ho : ∀ fuel queues count worker vis, o ≠ .job (.fetch fuel queues count worker vis))
    (hfresh : o.Fresh w) (hr : Runs (ρ.reserving (o.inUse w)).env (o.prog cfg lib) w a w') :
    NewlyIdle w w' := by
  have hadmits : Writes.inactive.Admits o := by
    refine ⟨fun i x hx => ?_, fun _ => trivial, fun _ _ => trivial, fun _ => trivial, fun _ _ => trivial⟩
    cases hx with
    | fetch => exact absurd rfl (ho _ _ _ _ _)
    | expire => exact absurd rfl (ho _ _ _ _ _)
    | _ => exact fun h => by cases h
  exact (guards_inactive w).op hρ hadmits ⟨hg.named, fun i r hr hs => ⟨r, hr, hs⟩⟩ hfresh hr

theorem env_inactive (hn : w.NamedJobs) {l : Label} (hl : l.isOp = false) (hs : Step cfg ρ w l w') :
    NewlyIdle w w' := by
  refine (guards_inactive w).env (fun w₁ w₂ hjobs h => ⟨?_, ?_⟩) ⟨hn, fun i r hr hs => ⟨r, hr, hs⟩⟩
    hl hs
  · intro i r hr
    exact h.named i r (hjobs ▸ hr)
  · intro i r hr
    exact h.active i r (hjobs ▸ hr)

theorem NewlyIdle.respects {l : SystemLabel} (h : NewlyIdle w w')
    (hl : ∀ fuel queues count worker vis a, l ≠ .op (.job (.fetch fuel queues count worker vis)) a) :
    RespectsPause w l w' :=
  ⟨fun fuel queues count worker vis _ he => absurd he (hl fuel queues count worker vis _),
    fun i r' hr' hs _ => h.active i r' hr' hs⟩

/-- A step of clients that push, pause, resume and fetch, with names the API
admits. -/
def OfQueues : SystemLabel → Prop
  | .op (.job (.push job)) _ => queueNamePattern job.queue = true
  | .op (.job (.fetch _ queues _ _ _)) _ => ∀ queue ∈ queues, queueNamePattern queue = true
  | .op (.pauseQueue name) _ | .op (.resumeQueue name) _ => queueNamePattern name = true
  | _ => False

/-- The runs' steps: a push to the queue, which is not open yet, a pause of it,
and a fetch. -/
def pushTo (queue : String) : SystemAct :=
  .op (.job (.push { demoJob with queue := queue })) [.tick 0, .ok, .ok, .ok, .ok, .ok, .ok, .ok]
def pauseDemo (queue : String) : SystemAct := .op (.pauseQueue queue) [.ok]
def resumeDemo (queue : String) : SystemAct := .op (.resumeQueue queue) [.ok]
def fetchFrom (queue : String) (choices : List Choice) : SystemAct :=
  .op (.job (.fetch 1 [queue] 1 "w1" 0)) (.tick 0 :: choices)

end OjsSqs
