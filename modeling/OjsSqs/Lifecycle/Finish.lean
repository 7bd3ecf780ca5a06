import OjsSqs.Lifecycle.Edges
import OjsSqs.Racing.Footprint

/-! # Ack, Nack and Cancel move a job

Each takes the message of the stored handle out of the queue, or shows it
again, and then writes the record. -/
namespace OjsSqs
open Calls

variable {cfg : Config} {κ : Regime} {ρ : Rules} (hρ : ρ.faults = false) {w : World}
  {id : String} {r : JobRecord}

theorem Fits.not_dead {ds : List Delivery} (hf : Fits cfg κ ds w id r) (hs : r.state ≠ .discarded) :
    w.dead id = false := by
  cases hd : w.dead id with
  | false => rfl
  | true => exact absurd (hf.dead hd).1 hs

/-- A job without messages fits when its markers do. -/
theorem Fits.ofEmpty {ds : List Delivery} (hid : r.id = id) (hm : w.sqs.messagesOf id = [])
    (hs : r.state ≠ .available ∧ r.state ≠ .active)
    (hsched : w.marked .scheduled id = decide (r.state = .scheduled))
    (hretry : w.marked .retry id = decide (r.state = .retryable))
    (hdead : w.dead id = true → r.state = .discarded ∧ r.sqsReceiptHandle = none)
    (hnone : holdsNoHandle r.state = true → r.sqsReceiptHandle = none) :
    Fits cfg κ ds w id r := by
  refine ⟨hid, ?_, ?_, ?_, hsched, hretry, hdead, hnone, fun h => absurd h hs.2⟩
  · rw [hm]
    simp
  · rw [hm]
    exact Nat.zero_le _
  · rintro _ (h | h)
    · exact absurd h hs.1
    · exact absurd h hs.2

/-- The handle an active job stores is its own. -/
theorem Fits.owns (hf : Fits cfg κ [] w id r) (hs : holdsNoHandle r.state = true ∨
    r.state = .active) : ∀ h, r.sqsReceiptHandle = some h → Owns id h w.sqs := by
  intro h hh
  rcases hs with hs | hs
  · rw [hf.noHandle hs] at hh
    cases hh
  · obtain ⟨h', hh', ho, _⟩ := hf.active hs
    rw [hh] at hh'
    cases hh'
    exact ho

/-- An active job has no markers. -/
theorem Fits.unmarked (hf : Fits cfg κ [] w id r) (hs : r.state = .active) (x : DueIndex) :
    w.marked x id = false := by
  cases x with
  | scheduled => rw [hf.scheduled, hs]; rfl
  | retry => rw [hf.retry, hs]; rfl

/-- A state of the world in which the message of an active job is gone. -/
structure Dropped (cfg : Config) (id : String) (w w₁ : World) : Prop where
  touch : Touch cfg id w w₁
  messages : w₁.sqs.messagesOf id = []
  store : w₁.store = w.store
  unmarked : ∀ x, w₁.marked x id = false
  not_dead : w₁.dead id = false

/-- The message of an active job goes with its handle. -/
theorem Good.dropped (hg : Good cfg κ [] w) (hr : w.store.jobs.lookup id = some r)
    (hs : r.state = .active) (t : Time) :
    Dropped cfg id w ((w.setClock t).dropMessage cfg r) := by
  have hf := hg.fits id r hr
  have hclock : Touch cfg id w (w.setClock t) := touch_clock _ hg.sound t
  have hst : ((w.setClock t).dropMessage cfg r).store = w.store :=
    World.dropMessage_store cfg (w.setClock t) r
  refine ⟨hclock.trans (touch_dropMessage hclock.sound (hf.owns (.inr hs))), ?_, hst, ?_, ?_⟩
  · obtain ⟨h, hh, _, hall⟩ := hf.active hs
    refine dropMessage_messagesOf hclock.sound hh fun m hm => ?_
    refine ⟨(hf.about m hm).queueURL, ?_⟩
    rcases hall m hm with hm | ⟨_, hd, _⟩
    · exact hm
    · cases hd
  · intro x
    rw [World.marked, hst]
    exact hf.unmarked hs x
  · rw [World.dead, hst]
    exact hf.not_dead (by rw [hs]; decide)

/-- The record of the job after its message was dropped and the state written,
in a world `w'` that has added at most one marker. -/
theorem Good.finish {o : Op} {w' : World} {s : JobState} {us : List JobUpdate}
    (hg : Good cfg κ [] w) (hr : w.store.jobs.lookup id = some r) (ht : Touch cfg id w w')
    (hr' : w'.store.jobs.lookup id = some (r.moved s us)) (hm : w'.sqs.messagesOf id = [])
    (hs : s ≠ .available ∧ s ≠ .active)
    (hmark : ∀ x, w'.marked x id = decide (s = .scheduled ∧ x = .scheduled ∨
      s = .retryable ∧ x = .retry))
    (hnone : s ≠ .completed → (applyUpdates us r).sqsReceiptHandle = none)
    (hdead : w'.dead id = true → s = .discarded) (he : Edge cfg w w'.clock id r o s) :
    Moves cfg κ w o w w' := by
  refine hg.moves ht hr hr' (.ofEmpty ?_ hm hs ?_ ?_ ?_ ?_) (by simp) (.inr he)
  · rw [JobRecord.moved_id]
    exact (hg.fits id r hr).id_eq
  · rw [hmark, JobRecord.moved_state]
    exact decide_eq_decide.mpr (by simp)
  · rw [hmark, JobRecord.moved_state]
    exact decide_eq_decide.mpr (by simp)
  · intro hd
    have hs := hdead hd
    exact ⟨hs, hnone (by rw [hs]; decide)⟩
  · intro hh
    refine hnone fun hc => ?_
    rw [JobRecord.moved_state, hc] at hh
    cases hh

/-! ## Ack -/

variable (cfg) in
/-- The world after an Ack at `t` has completed the job, before its workflow is
told. -/
def World.acked (id : String) (r : JobRecord) (result : Option String) (t : Time) (w : World) :
    World :=
  (((w.setClock t).dropMessage cfg r).setJob id
    (r.moved .completed (ackUpdates (cfg.formatTime t) result))).addCompleted r.queue

theorem Good.acked (hg : Good cfg κ [] w) (hr : w.store.jobs.lookup id = some r)
    (hs : r.state = .active) (result : Option String) (t : Time) :
    Moves cfg κ w (.ack id result) w (w.acked cfg id r result t) := by
  have hd := hg.dropped hr hs t
  rw [World.acked]
  generalize (w.setClock t).dropMessage cfg r = w₁ at hd
  have hset := touch_setJob id hd.touch.sound
    (r.moved .completed (ackUpdates (cfg.formatTime t) result))
  have hinc := touch_addCompleted id hset.sound r.queue
  refine hg.finish hr (hd.touch.trans (hset.trans hinc)) (World.setJob_lookup id _)
    hd.messages (by decide) (fun x => ?_) (absurd rfl) (fun h => ?_) (.complete hs)
  · exact hd.unmarked x
  · exact absurd hd.not_dead (by rw [show w₁.dead id = true from h]; decide)

/-! ## Nack -/

variable (cfg) in
/-- The world after a Nack at `t` has discarded the job, before its workflow is
told. -/
def World.nackDiscarded (id : String) (r : JobRecord) (e : Option JobError) (t : Time)
    (w : World) : World :=
  let w' := ((w.setClock t).dropMessage cfg r).setJob id
    (r.moved .discarded (discardUpdates (cfg.formatTime t) r e))
  if onExhaustion r.retry.unmarshal = "dead_letter" then w'.addDead id else w'

theorem errorUpdate_handle (err : Option RawMessage) (r : JobRecord) :
    (applyUpdates (errorUpdate err) r).sqsReceiptHandle = r.sqsReceiptHandle := by
  cases err <;> rfl

theorem Good.nackDiscarded (hg : Good cfg κ [] w) (hr : w.store.jobs.lookup id = some r)
    (hs : r.state = .active) (e : Option JobError) (t : Time) :
    Moves cfg κ w (.nack id e false) w (w.nackDiscarded cfg id r e t) := by
  have hd := hg.dropped hr hs t
  simp only [World.nackDiscarded]
  generalize (w.setClock t).dropMessage cfg r = w₁ at hd
  have hset := touch_setJob id hd.touch.sound
    (r.moved .discarded (discardUpdates (cfg.formatTime t) r e))
  have hnone : (applyUpdates (discardUpdates (cfg.formatTime t) r e) r).sqsReceiptHandle = none :=
    errorUpdate_handle _ _
  split
  · exact hg.finish hr (hd.touch.trans (hset.trans (touch_addDead id hset.sound)))
      (World.setJob_lookup id _) hd.messages (by decide) (fun x => hd.unmarked x)
      (fun _ => hnone) (fun _ => rfl) (.discard hs)
  · exact hg.finish hr (hd.touch.trans hset) (World.setJob_lookup id _) hd.messages
      (by decide) (fun x => hd.unmarked x) (fun _ => hnone) (fun _ => rfl) (.discard hs)

include hρ

/-- An Ack of an active job completes it, and then its workflow is told. -/
theorem wp_ack {result : Option String} (hr : w.store.jobs.lookup id = some r)
    {Q : Except Error AckResponse → World → Prop}
    (hnot : r.state ≠ .active → Q (.error (notActiveError "acknowledge" id r.state)) w)
    (hack : r.state = .active → ∀ t, ρ.mayShow w t →
      wp ρ.env.every (advanceWorkflowOf cfg id .completed result)
        (fun _ w' => ∀ job, Q (.ok ⟨id, .completed, cfg.formatTime t, job⟩) w')
        (w.acked cfg id r result t)) :
    wp ρ.env.every (ack cfg id result) Q w := by
  rw [ack, wp_bind, wp_getJob_some hρ hr]
  simp only [wp_ite, wp_pure, wp_bind]
  split
  · rename_i hs
    exact hnot hs
  · rename_i hs
    refine wp_nowFormatted cfg fun t ht => ?_
    rw [wp_dropMessage cfg hρ]
    have hr₁ : ((w.setClock t).dropMessage cfg r).store.jobs.lookup id = some r := by
      rw [World.dropMessage_store]
      exact hr
    rw [wp_updateJobState_some hρ hr₁]
    simp only [wp_bind]
    rw [wp_incrementQueueCompleted hρ]
    refine wp_mono (Env.every_mono _) _ (hack (not_not.mp hs) t ht) fun _ w' hq => ?_
    exact wp_info hρ fun _ => hq _

theorem ack_moves (hg : Good cfg κ [] w) (result : Option String) :
    wp ρ.env.every (ack cfg id result)
      (fun _ w' => Moves cfg κ w (.ack id result) w w') w := by
  cases hr : w.store.jobs.lookup id with
  | none =>
    rw [ack, wp_bind, wp_getJob_none hρ hr]
    exact .none hg
  | some r =>
    refine wp_ack hρ hr (fun _ => .none hg) fun hs t _ => ?_
    have hm := hg.acked hr hs result t
    rw [wp_advanceWorkflowOf cfg hρ hm.good.sound.workflows]
    exact fun _ => hm

/-- A Nack that discards the job, and then tells its workflow. -/
theorem wp_nackDiscard {t : Time} {e : Option JobError} (hr : w.store.jobs.lookup id = some r)
    {Q : Except Error NackResponse → World → Prop}
    (h : wp ρ.env.every (advanceWorkflowOf cfg id .discarded none)
      (fun _ w' => ∀ job, Q (.ok {
        jobID := id
        state := .discarded
        attempt := r.attempt + 1
        maxAttempts := maxAttemptsOf r
        discardedAt := cfg.formatTime t
        job := job }) w') (w.nackDiscarded cfg id r e t)) :
    wp ρ.env.every (nackDiscard cfg t r id e) Q (w.setClock t) := by
  rw [nackDiscard, wp_bind, wp_deleteMessageOf cfg hρ]
  have hr₁ : ((w.setClock t).dropMessage cfg r).store.jobs.lookup id = some r := by
    rw [World.dropMessage_store]
    exact hr
  simp only
  rw [wp_bind, wp_updateJobState_some hρ hr₁]
  simp only
  rw [wp_bind, markDeadLetter]
  have hstored : ((w.nackDiscarded cfg id r e t).store.jobs.lookup id).isSome = true := by
    simp only [World.nackDiscarded]
    split <;> exact Option.isSome_iff_exists.mpr ⟨_, World.setJob_lookup id _⟩
  -- the job is still stored when the answer is made
  have hend : ∀ k : Except Error Job → M (Except Error NackResponse),
      (∀ job, k (.ok job) = Pure.pure (.ok {
        jobID := id
        state := .discarded
        attempt := r.attempt + 1
        maxAttempts := maxAttemptsOf r
        discardedAt := cfg.formatTime t
        job := job })) →
      wp ρ.env.every (advanceWorkflowOf cfg id .discarded none)
        (fun _ w' => wp ρ.env.every (info id >>= k) Q w') (w.nackDiscarded cfg id r e t) := by
    refine fun k hk => (wp_iff_runs _ _ _ _).mpr fun _ w' hrun => ?_
    obtain ⟨r', hr'⟩ := Option.isSome_iff_exists.mp (runs_stored hrun hstored)
    rw [wp_bind, wp_info_some hρ hr', hk]
    exact wp_runs h hrun _
  simp only [World.nackDiscarded] at hend
  split
  · rename_i hdl
    rw [if_pos hdl] at hend
    rw [wp_addToDeadLetter hρ]
    simp only
    rw [wp_bind]
    exact hend _ fun _ => rfl
  · rename_i hdl
    rw [if_neg hdl] at hend
    rw [wp_pure]
    simp only
    rw [wp_bind]
    exact hend _ fun _ => rfl

theorem nackDiscard_moves (hg : Good cfg κ [] w) (hr : w.store.jobs.lookup id = some r)
    (hs : r.state = .active) (t : Time) (e : Option JobError) :
    wp ρ.env.every (nackDiscard cfg t r id e)
      (fun _ w' => Moves cfg κ w (.nack id e false) w w') (w.setClock t) := by
  have hm := hg.nackDiscarded hr hs e t
  refine wp_nackDiscard hρ hr ?_
  rw [wp_advanceWorkflowOf cfg hρ hm.good.sound.workflows]
  exact fun _ => hm

theorem nackRetry_moves (hg : Good cfg κ [] w) (hr : w.store.jobs.lookup id = some r)
    (hs : r.state = .active) (t : Time) (e : Option JobError) :
    wp ρ.env.every (nackRetry cfg t r id e)
      (fun _ w' => Moves cfg κ w (.nack id e false) w w') (w.setClock t) := by
  have hd := hg.dropped hr hs t
  rw [nackRetry]
  rw [wp_bind, wp_deleteMessageOf cfg hρ]
  generalize (w.setClock t).dropMessage cfg r = w₁ at hd
  have hr₁ : w₁.store.jobs.lookup id = some r := by rw [hd.store, hr]
  simp only
  rw [wp_bind, wp_updateJobState_some hρ hr₁]
  simp only
  rw [wp_bind, addRetryJob, wp_addDueJob hρ]
  simp only
  rw [wp_bind]
  refine wp_info hρ fun a => ?_
  have hset := touch_setJob id hd.touch.sound
    (r.moved .retryable (retryUpdates
      (Time.milliseconds (cfg.calculateBackoff r.retry.unmarshal (r.attempt + 1))) r e))
  have hdue := touch_addDue id hset.sound .retry
    (Time.unixMilli (t + cfg.calculateBackoff r.retry.unmarshal (r.attempt + 1)))
  have hmoved := hg.finish (o := .nack id e false) hr (hd.touch.trans (hset.trans hdue))
    (World.setJob_lookup id _) hd.messages (by decide) (fun x => ?_)
    (fun _ => errorUpdate_handle _ _) (fun h => ?_) (.fail hs)
  · cases a <;> exact hmoved
  · rw [World.addDue_marked]
    cases x with
    | retry => simp
    | scheduled => exact hd.unmarked .scheduled
  · exact absurd hd.not_dead (by rw [show w₁.dead id = true from h]; decide)

/-- Requeue shows the message again: the job keeps it. -/
theorem nackRequeue_moves (hg : Good cfg κ [] w) (hr : w.store.jobs.lookup id = some r)
    (hs : r.state = .active) (t : Time) (e : Option JobError) :
    wp ρ.env.every (nackRequeue cfg t r id)
      (fun _ w' => Moves cfg κ w (.nack id e true) w w') (w.setClock t) := by
  have hf := hg.fits id r hr
  have hclock : Touch cfg id w (w.setClock t) := touch_clock _ hg.sound t
  have hrel := touch_releaseMessage hclock.sound (r := r) (hf.owns (.inr hs))
  obtain ⟨f, hsame, hm⟩ := releaseMessage_messagesOf cfg id (w.setClock t) r
  have hst : ((w.setClock t).releaseMessage cfg r).store = w.store :=
    World.releaseMessage_store cfg (w.setClock t) r
  rw [nackRequeue, wp_bind, wp_releaseMessage cfg hρ]
  generalize (w.setClock t).releaseMessage cfg r = w₁ at hrel hm hst
  have hr₁ : w₁.store.jobs.lookup id = some r := by rw [hst, hr]
  simp only
  rw [wp_bind, wp_updateJobState_some hρ hr₁]
  simp only
  rw [wp_bind]
  refine wp_info hρ fun a => ?_
  have hset := touch_setJob id hrel.sound
    (r.moved .available (requeueUpdates (cfg.formatTime t)))
  have hm' : (w₁.setJob id (r.moved .available (requeueUpdates (cfg.formatTime t)))).sqs.messagesOf
      id = (w.sqs.messagesOf id).map f := hm
  have hmark : ∀ x, (w₁.setJob id (r.moved .available
      (requeueUpdates (cfg.formatTime t)))).marked x id = false := fun x => by
    rw [← hf.unmarked hs x, World.marked, World.marked, ← hst]
    rfl
  have hmoved : Moves cfg κ w (.nack id e true) w
      (w₁.setJob id (r.moved .available (requeueUpdates (cfg.formatTime t)))) := by
    refine hg.moves (hclock.trans (hrel.trans hset)) hr (World.setJob_lookup id _)
      ⟨?_, ?_, ?_, ?_, hmark _, hmark _, ?_, fun _ => rfl, fun h => by cases h⟩ (by simp)
      (.inr (.requeue hs))
    · exact hf.id_eq
    · rw [hm']
      intro m' hm''
      obtain ⟨m, hmem, rfl⟩ := List.mem_map.mp hm''
      have ha := (hf.about m hmem).same (hsame m)
      exact ⟨by rw [JobRecord.moved_queue]; exact ha.queueURL,
        by rw [JobRecord.moved_expiresAt]; exact ha.body⟩
    · rw [hm', List.length_map]
      have := hf.messages
      rw [hs] at this
      exact this
    · intro hl _
      rw [hm']
      exact fun h => hf.present hl (.inr hs) (List.map_eq_nil_iff.mp h)
    · intro h
      have hnd := hf.not_dead (by rw [hs]; decide)
      rw [World.dead, ← hst] at hnd
      exact absurd hnd (by rw [show (w₁.store.deadLetters.lookup id).isSome = true from h]; decide)
  cases a <;> exact hmoved

theorem nack_moves (hg : Good cfg κ [] w) (e : Option JobError) (requeue : Bool) :
    wp ρ.env.every (nack cfg id e requeue)
      (fun _ w' => Moves cfg κ w (.nack id e requeue) w w') w := by
  rw [nack, wp_bind]
  cases hr : w.store.jobs.lookup id with
  | none =>
    rw [wp_getJob_none hρ hr]
    exact .none hg
  | some r =>
    rw [wp_getJob_some hρ hr]
    simp only [wp_ite, wp_pure, wp_bind]
    split
    · exact .none hg
    · rename_i hs
      have hs : r.state = .active := not_not.mp hs
      refine wp_timeNow fun t _ => ?_
      cases requeue with
      | true => exact nackRequeue_moves hρ hg hr hs t e
      | false =>
        simp only [Bool.false_eq_true, if_false]
        split
        · exact nackDiscard_moves hρ hg hr hs t e
        · exact nackRetry_moves hρ hg hr hs t e

/-! ## Cancel -/

/-- Every undeleted message of the job carries the handle its record stores:
a Cancel that looks for the message by this handle finds all there is. -/
def CancelReaches (id : String) (w : World) : Prop :=
  ∀ r, w.store.jobs.lookup id = some r → isTerminalState r.state = false →
    ∀ m ∈ w.sqs.messagesOf id, ∃ h, r.sqsReceiptHandle = some h ∧ m.receipt = some h

omit hρ in
variable (cfg id) in
theorem dropMessage_sublist (w : World) (r : JobRecord) :
    List.Sublist ((w.dropMessage cfg r).sqs.messagesOf id) (w.sqs.messagesOf id) := by
  rw [World.dropMessage]
  cases r.sqsReceiptHandle with
  | none => exact List.Sublist.refl _
  | some h =>
    simp only [World.setSqs, SqsState.delete_eq, SqsState.messagesOf_filter,
      World.openQueue_messagesOf]
    exact List.filter_sublist

omit hρ in
/-- What Cancel leaves of a job's messages: none if it reaches them all. -/
theorem Good.cancelled_messages (hg : Good cfg κ [] w) (hr : w.store.jobs.lookup id = some r)
    (hs : isTerminalState r.state = false) (t : Time)
    (hc : κ.leftover = true ∨ CancelReaches id w) :
    (((w.setClock t).dropMessage cfg r).sqs.messagesOf id).length ≤ maxMessages κ .cancelled := by
  have hf := hg.fits id r hr
  rcases hc with hl | hc
  · have hle := (dropMessage_sublist cfg id (w.setClock t) r).length_le
    rw [maxMessages, if_pos hl]
    exact hle.trans (hf.messages.trans (maxMessages_le κ r.state))
  · have hclock : Touch cfg id w (w.setClock t) := touch_clock _ hg.sound t
    cases hh : r.sqsReceiptHandle with
    | none =>
      have hnil : w.sqs.messagesOf id = [] := by
        refine List.eq_nil_iff_forall_not_mem.mpr fun m hm => ?_
        obtain ⟨h, hh', _⟩ := hc r hr hs m hm
        rw [hh] at hh'
        cases hh'
      have hle := (dropMessage_sublist cfg id (w.setClock t) r).length_le
      rw [show (w.setClock t).sqs.messagesOf id = [] from hnil] at hle
      exact hle.trans (Nat.zero_le _)
    | some h =>
      rw [dropMessage_messagesOf hclock.sound hh fun m hm => ?_]
      · exact Nat.zero_le _
      · obtain ⟨h', hh', hm'⟩ := hc r hr hs m hm
        rw [hh] at hh'
        cases hh'
        exact ⟨(hf.about m hm).queueURL, hm'⟩

theorem cancel_moves (w₀ : World) (o : Op)
    (ho : ∀ now r, isTerminalState r.state = false → Edge cfg w₀ now id r o .cancelled)
    (hg : Good cfg κ [] w) (hc : κ.leftover = true ∨ CancelReaches id w) :
    wp ρ.env.every (cancel cfg id) (fun _ w' => Moves cfg κ w₀ o w w' ∧
      ∀ i, w.store.jobs.lookup i = none → w'.store.jobs.lookup i = none) w := by
  rw [cancel, wp_bind]
  cases hr : w.store.jobs.lookup id with
  | none =>
    rw [wp_getJob_none hρ hr]
    exact ⟨.none hg, fun _ h => h⟩
  | some r =>
    rw [wp_getJob_some hρ hr]
    simp only [wp_ite, wp_pure, wp_bind]
    split
    · exact ⟨.none hg, fun _ h => h⟩
    · rename_i hs
      have hs : isTerminalState r.state = false := by simpa using hs
      have hf := hg.fits id r hr
      refine wp_nowFormatted cfg fun t _ => ?_
      have howns := hf.owns (by cases hst : r.state <;> simp_all [isTerminalState, holdsNoHandle])
      have hclock : Touch cfg id w (w.setClock t) := touch_clock _ hg.sound t
      have hdrop := touch_dropMessage hclock.sound howns
      have hm := hg.cancelled_messages hr hs t hc
      have hsub := dropMessage_sublist cfg id (w.setClock t) r
      have hst : ((w.setClock t).dropMessage cfg r).store = w.store :=
        World.dropMessage_store cfg (w.setClock t) r
      rw [wp_dropMessage cfg hρ]
      generalize (w.setClock t).dropMessage cfg r = w₁ at hdrop hm hsub hst
      have hsched := touch_removeDue id hdrop.sound .scheduled
      have hretry := touch_removeDue id hsched.sound .retry
      have hset := touch_setJob id hretry.sound (r.moved .cancelled
        [.state .cancelled, .cancelledAt (cfg.formatTime t), .sqsReceiptHandle none])
      have hr₁ : ((w₁.removeDue .scheduled id).removeDue .retry id).store.jobs.lookup id =
          some r := by
        rw [show ((w₁.removeDue .scheduled id).removeDue .retry id).store.jobs = w₁.store.jobs
          from rfl, hst, hr]
      rw [removeScheduledJob, wp_removeDueJob hρ, removeRetryJob, wp_removeDueJob hρ,
        wp_updateJobState_some hρ hr₁]
      have hmark : ∀ x, ((w₁.removeDue .scheduled id).removeDue .retry id).marked x id = false := by
        intro x
        rw [World.removeDue_marked, World.removeDue_marked]
        cases x <;> simp
      have htouch := hclock.trans (hdrop.trans (hsched.trans (hretry.trans hset)))
      have hnone : ∀ i, w.store.jobs.lookup i = none → _ := fun i hi =>
        (htouch.frame.others i fun h => by rw [h, hr] at hi; cases hi).job.trans hi
      refine ⟨hg.moves htouch hr (World.setJob_lookup id _)
        ⟨?_, ?_, hm, ?_, hmark _, hmark _, ?_, fun _ => rfl, ?_⟩ (by simp) (.inr (ho _ r hs)),
        hnone⟩
      · rw [JobRecord.moved_id]
        exact hf.id_eq
      · intro m hmem
        have ha := hf.about m (hsub.subset hmem)
        exact ⟨by rw [JobRecord.moved_queue]; exact ha.queueURL,
          by rw [JobRecord.moved_expiresAt]; exact ha.body⟩
      · intro _ h
        rcases h with h | h <;> cases h
      · intro h
        have hnd := hf.not_dead (fun h => by rw [h] at hs; cases hs)
        rw [World.dead, ← hst] at hnd
        exact absurd hnd
          (by rw [show (w₁.store.deadLetters.lookup id).isSome = true from h]; decide)
      · intro h
        cases h

end OjsSqs
