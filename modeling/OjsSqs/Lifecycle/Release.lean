import OjsSqs.Lifecycle.Finish

/-! # The promoters and the dead letter set move a job

A waiting job gets a message again: its marker is removed, its record becomes
available, and the job is sent. -/
namespace OjsSqs
open Calls

variable {cfg : Config} {κ : Regime} {ρ : Rules} (hρ : ρ.faults = false) {w : World}
  {id : String} {r : JobRecord}

variable (κ r) in
/-- A job without messages that has become available fits once it is sent. -/
theorem Fits.sent (job : Job) (hs : SoundWorld cfg w) (hm : w.sqs.messagesOf id = [])
    (hmark : ∀ x, w.marked x id = false) (hdead : w.dead id = false) (hid : r.id = id)
    (hst : r.state = .available) (hh : r.sqsReceiptHandle = none) (hjob : job.id = id)
    (hq : job.queue = r.queue) (hx : job.expiresAt = r.expiresAt)
    (hl : κ.lossless = true → encodes cfg job = true) :
    Fits cfg κ [] (w.sendJob cfg job) id r := by
  have hmo := sendJob_messagesOf hs hjob
  have hmark' : ∀ x, (w.sendJob cfg job).marked x id = false := fun x => by
    rw [World.marked, World.sendJob_store]
    exact hmark x
  rw [hm, List.nil_append] at hmo
  refine ⟨hid, ?_, ?_, ?_, ?_, ?_, ?_, fun _ => hh, fun h => ?_⟩
  · rw [hmo]
    split
    · intro m hmem
      rw [List.mem_singleton.mp hmem]
      exact ⟨by rw [hq], job, rfl, hx⟩
    · simp
  · rw [hmo, hst]
    split <;> simp [maxMessages]
  · intro hκ _
    rw [hmo, if_pos (hl hκ)]
    simp
  · rw [hmark', hst]
    rfl
  · rw [hmark', hst]
    rfl
  · intro h
    rw [World.dead, World.sendJob_store] at h
    exact absurd hdead (by rw [show w.dead id = true from h]; decide)
  · rw [hst] at h
    cases h

/-! ## The promoters -/

/-- The state of the jobs that wait in an index, and who releases them. -/
def DueIndex.waiting : DueIndex → JobState
  | .scheduled => .scheduled
  | .retry => .retryable

def DueIndex.promoter : DueIndex → Op
  | .scheduled => .promoteScheduled
  | .retry => .promoteRetries

theorem DueIndex.edge {w₀ : World} {now : Time} (x : DueIndex) (h : r.state = x.waiting) :
    Edge cfg w₀ now id r x.promoter .available := by
  cases x with
  | scheduled => exact .due h
  | retry => exact .retry h

/-- A marker of an index goes with the state of its jobs. -/
theorem Fits.waiting (hf : Fits cfg κ [] w id r) {x : DueIndex} (hx : w.marked x id = true) :
    r.state = x.waiting := by
  cases x with
  | scheduled =>
    rw [hf.scheduled] at hx
    exact of_decide_eq_true hx
  | retry =>
    rw [hf.retry] at hx
    exact of_decide_eq_true hx

/-- A waiting job has no message, and no marker but that of its index. -/
theorem Fits.waiting_places (hf : Fits cfg κ [] w id r) {x : DueIndex}
    (hx : r.state = x.waiting) : w.sqs.messagesOf id = [] ∧ w.dead id = false ∧
      (∀ y, y ≠ x → w.marked y id = false) ∧ r.sqsReceiptHandle = none := by
  have hlen := hf.messages
  refine ⟨?_, hf.not_dead (by rw [hx]; cases x <;> decide), fun y hy => ?_, hf.noHandle ?_⟩
  · rw [hx] at hlen
    cases x <;> exact List.length_eq_zero_iff.mp (Nat.le_zero.mp hlen)
  · cases x <;> cases y <;> first | (exact absurd rfl hy) | skip
    · rw [hf.retry, hx]
      rfl
    · rw [hf.scheduled, hx]
      rfl
  · rw [hx]
    cases x <;> rfl

include hρ

theorem promoteOne_moves (w₀ : World) (hg : Good cfg κ [] w) (x : DueIndex)
    (hr : w.store.jobs.lookup id = some r) (hx : w.marked x id = true)
    (hl : κ.lossless = true → ∀ t, ρ.mayShow w t → encodes cfg (promotedJob cfg t r) = true) :
    wp ρ.env.every (promoteOne cfg x id) (fun _ w' => Moves cfg κ w₀ x.promoter w w' ∧
      Frame id w w' ∧ ∀ t, ρ.mayShow w' t → ρ.mayShow w t) w := by
  have hf := hg.fits id r hr
  have hst := hf.waiting hx
  obtain ⟨hm, hdead, hother, hnone⟩ := hf.waiting_places hst
  rw [promoteOne, wp_bind, wp_getJob_some hρ hr]
  simp only
  rw [wp_bind, wp_removeDueJob hρ]
  simp only
  rw [wp_bind]
  refine wp_timeNow fun t ht => ?_
  rw [wp_bind]
  have hrem := touch_removeDue id hg.sound x
  have hclock := touch_clock id hrem.sound t
  have hset := touch_setJob id hclock.sound (r.moved .available (promoteUpdates cfg t))
  have hr₁ : ((w.removeDue x id).setClock t).store.jobs.lookup id = some r := hr
  rw [wp_updateJobState_some hρ hr₁]
  simp only
  rw [wp_bind, wp_sendToSQS cfg hρ]
  have hsent := touch_sendJob hset.sound
    (show (promotedJob cfg t r).id = id from hf.id_eq)
  have htouch := hrem.trans (hclock.trans (hset.trans hsent))
  have hclock' : ∀ t', ρ.mayShow ((((w.removeDue x id).setClock t).setJob id (r.moved .available
      (promoteUpdates cfg t))).sendJob cfg (promotedJob cfg t r)) t' → ρ.mayShow w t' := by
    intro t' ht'
    refine @Rules.mayShow_trans ρ w (w.setClock t) _ ht ?_
    rw [Rules.mayShow, World.sendJob_clock] at ht'
    exact ht'
  have hfits := Fits.sent κ (r.moved .available (promoteUpdates cfg t)) (promotedJob cfg t r)
    hset.sound hm (fun y => ?_) hdead ((JobRecord.moved_id ..).trans hf.id_eq) rfl hnone
    hf.id_eq (JobRecord.moved_queue ..).symm
    (JobRecord.moved_expiresAt ..).symm (fun hκ => hl hκ t ht)
  · have hmoved : Moves cfg κ w₀ x.promoter w _ := hg.moves htouch hr
      (by rw [World.sendJob_store]; exact World.setJob_lookup id _) hfits (by simp)
      (.inr (x.edge hst))
    cases encodeJob cfg (promotedJob cfg t r) <;> exact ⟨hmoved, htouch.frame, hclock'⟩
  · refine (World.removeDue_marked x id y id).trans ?_
    by_cases hy : y = x
    · simp [hy]
    · simp [hy, hother y hy]

/-- The loop over the due jobs, by induction on their list: a job that is
still to come keeps its marker, because each turn touches only its own job. -/
theorem promoteAll_moves (w₀ : World) (x : DueIndex) {ids : List String} (hids : ids.Nodup)
    (err : Option Error) (hg : Good cfg κ [] w)
    (hmarked : ∀ id ∈ ids, w.marked x id = true)
    (hl : κ.lossless = true → ∀ id ∈ ids, ∀ r t, w.store.jobs.lookup id = some r →
      ρ.mayShow w t → encodes cfg (promotedJob cfg t r) = true) :
    wp ρ.env.every (promoteAll cfg x ids err)
      (fun _ w' => Moves cfg κ w₀ x.promoter w w') w := by
  induction ids generalizing w err with
  | nil => exact .none hg
  | cons id ids ih =>
    obtain ⟨hnot, hids⟩ := List.nodup_cons.mp hids
    have hmark := hmarked id List.mem_cons_self
    cases hr : w.store.jobs.lookup id with
    | none => exact absurd ((hg.unknown id hr).marked x) (by rw [hmark]; decide)
    | some r =>
      rw [promoteAll, wp_bind]
      refine wp_mono (Env.every_mono _) _ (promoteOne_moves hρ w₀ hg x hr hmark
        fun hκ t ht => hl hκ id List.mem_cons_self r t hr ht) ?_
      rintro e w' ⟨hmoved, hframe, hclock⟩
      have hne : ∀ i ∈ ids, i ≠ id := fun i hi => ne_of_mem_of_not_mem hi hnot
      refine wp_mono (Env.every_mono _) _ (ih hids _ hmoved.good ?_ ?_) ?_
      · intro i hi
        rw [(hframe.others i (hne i hi)).marked]
        exact hmarked i (List.mem_cons_of_mem _ hi)
      · intro hκ i hi r' t hr' ht
        rw [(hframe.others i (hne i hi)).job] at hr'
        exact hl hκ i (List.mem_cons_of_mem _ hi) r' t hr' (hclock t ht)
      · intro _ w'' h
        exact hmoved.trans (by cases x <;> exact fun _ _ _ _ _ => nofun) h

/-- Every job that may be found due now fits into a message. -/
def PromotesFit (cfg : Config) (ρ : Rules) (x : DueIndex) (w : World) : Prop :=
  ∀ id r t t', ρ.mayShow w t → ρ.mayShow (w.setClock t) t' →
    w.store.isDue x t.unixMilli id = true → w.store.jobs.lookup id = some r →
    encodes cfg (promotedJob cfg t' r) = true

theorem promote_moves (w₀ : World) (hg : Good cfg κ [] w) (x : DueIndex)
    (hl : κ.lossless = true → PromotesFit cfg ρ x w) :
    wp ρ.env.every (promote cfg x) (fun _ w' => Moves cfg κ w₀ x.promoter w w') w := by
  rw [promote, wp_bind]
  refine wp_timeNow fun t ht => ?_
  have hclock : Moves cfg κ w₀ x.promoter w (w.setClock t) := hg.aside t rfl rfl rfl rfl
  rw [wp_bind]
  refine wp_getDueJobs hρ fun ids hpage => ?_
  obtain ⟨hnodup, hdue⟩ : ids.Nodup ∧ ∀ i ∈ ids, w.store.isDue x t.unixMilli i = true := by
    simpa [Store.isDuePage, World.setClock] using hpage
  refine wp_mono (Env.every_mono _) _ (promoteAll_moves hρ w₀ x hnodup none hclock.good ?_ ?_) ?_
  · intro i hi
    have h := hdue i hi
    rw [Store.isDue] at h
    rw [World.marked]
    cases hlook : (w.store.due x).lookup i with
    | none => rw [hlook] at h; cases h
    | some _ => rw [show ((w.setClock t).store.due x).lookup i = some _ from hlook]; rfl
  · intro hκ i hi r t' hr ht'
    exact hl hκ i r t t' ht ht' (hdue i hi) hr
  · intro _ w' h
    exact ⟨h.good, h.roams⟩

/-! ## The dead letter set -/

/-- The job, if it is in the dead letter set, fits into a message now. -/
def RevivalFits (cfg : Config) (ρ : Rules) (id : String) (w : World) : Prop :=
  ∀ r t, ρ.mayShow w t → w.dead id = true → w.store.jobs.lookup id = some r →
    encodes cfg (deadLetterJob cfg t r) = true

omit hρ in
/-- A job in the dead letter set is discarded and has no message. -/
theorem Good.dead_places (hg : Good cfg κ [] w) (hd : w.dead id = true) :
    ∃ r, w.store.jobs.lookup id = some r ∧ r.state = .discarded ∧ r.sqsReceiptHandle = none ∧
      w.sqs.messagesOf id = [] ∧ ∀ x, w.marked x id = false := by
  cases hr : w.store.jobs.lookup id with
  | none => exact absurd (hg.unknown id hr).dead (by rw [hd]; decide)
  | some r =>
    have hf := hg.fits id r hr
    obtain ⟨hs, hh⟩ := hf.dead hd
    have hlen := hf.messages
    rw [hs] at hlen
    refine ⟨r, rfl, hs, hh, List.length_eq_zero_iff.mp (Nat.le_zero.mp hlen), fun x => ?_⟩
    cases x with
    | scheduled => rw [hf.scheduled, hs]; rfl
    | retry => rw [hf.retry, hs]; rfl

theorem retryDeadLetter_moves (hg : Good cfg κ [] w)
    (hl : κ.lossless = true → RevivalFits cfg ρ id w) :
    wp ρ.env.every (retryDeadLetter cfg id)
      (fun _ w' => Moves cfg κ w (.retryDeadLetter id) w w') w := by
  rw [retryDeadLetter, wp_bind, wp_isInDeadLetter hρ]
  rw [wp_ite]
  split
  · rename_i hd
    obtain ⟨r, hr, hs, hh, hm, hmark⟩ := hg.dead_places hd
    have hf := hg.fits id r hr
    rw [wp_bind]
    refine wp_timeNow fun t ht => ?_
    have hclock := touch_clock id hg.sound t
    have hrem := touch_removeDead id hclock.sound
    have hset := touch_setJob id hrem.sound (r.moved .available (deadLetterUpdates cfg t))
    have hsent := touch_sendJob hset.sound
      (show (deadLetterJob cfg t r).id = id from hf.id_eq)
    have hr₁ : (w.setClock t).store.jobs.lookup id = some r := hr
    have hr₂ : ((w.setClock t).removeDead id).store.jobs.lookup id = some r := hr
    rw [wp_bind, wp_getJob_some hρ hr₁]
    simp only
    rw [wp_bind, wp_removeFromDeadLetter hρ, wp_bind, wp_updateJobState_some hρ hr₂, wp_bind,
      wp_sendToSQS cfg hρ]
    refine wp_info hρ fun _ => ?_
    have hdead : (((w.setClock t).removeDead id).setJob id (r.moved .available
        (deadLetterUpdates cfg t))).dead id = false :=
      (World.removeDead_dead id id).trans (if_pos rfl)
    have hfits := Fits.sent κ (r.moved .available (deadLetterUpdates cfg t))
      (deadLetterJob cfg t r) hset.sound hm hmark hdead ((JobRecord.moved_id ..).trans hf.id_eq)
      rfl hh hf.id_eq (JobRecord.moved_queue ..).symm
      (JobRecord.moved_expiresAt ..).symm (fun hκ => hl hκ r t ht hd hr)
    exact hg.moves (hclock.trans (hrem.trans (hset.trans hsent))) hr
      (by rw [World.sendJob_store]; exact World.setJob_lookup id _) hfits (by simp)
      (.inr (.revive hs hd))
  · exact .none hg

theorem deleteDeadLetter_moves (hg : Good cfg κ [] w) :
    wp ρ.env.every (deleteDeadLetter id)
      (fun _ w' => Moves cfg κ w (.deleteDeadLetter id) w w') w := by
  rw [deleteDeadLetter, wp_bind, wp_isInDeadLetter hρ]
  rw [wp_ite]
  split
  · rename_i hd
    obtain ⟨r, hr, hs, hh, hm, hmark⟩ := hg.dead_places hd
    have hrem := touch_removeDead id hg.sound
    rw [wp_removeFromDeadLetter hρ]
    refine hg.moves hrem hr hr (.ofEmpty (hg.fits id r hr).id_eq hm (by rw [hs]; decide) ?_ ?_
      (fun _ => ⟨hs, hh⟩) (fun _ => hh)) rfl (.inl rfl)
    · rw [hs]
      exact hmark .scheduled
    · rw [hs]
      exact hmark .retry
  · exact .none hg

end OjsSqs
