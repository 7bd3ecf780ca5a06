import OjsSqs.Calls.Paging
import OjsSqs.Lifecycle.Release

/-! # Push and PushBatch bring in a job

A pushed job has an identifier no stored job has, so it has no marker and no
message yet. A unique push may cancel another job first. A batch stores all
its jobs and then sends them, in chunks, queue by queue. -/
namespace OjsSqs
open Calls

variable {cfg : Config} {κ : Regime} {ρ : Rules} (hρ : ρ.faults = false) {w w₀ : World}
  {id : String} {o : Op}

/-- A job that was not there before has arrived. -/
theorem Good.arrive {w' : World} {r : JobRecord} (hg : Good cfg κ [] w)
    (hn : w.store.jobs.lookup id = none) (ht : Touch cfg id w w')
    (hr : w'.store.jobs.lookup id = some r) (hf : Fits cfg κ [] w' id r) :
    Moves cfg κ w₀ o w w' := by
  refine ⟨hg.touch ht.frame ht.sound hr hf, fun i rᵢ hi => ⟨rᵢ, ?_, rfl, .inl rfl⟩⟩
  refine (ht.frame.others i fun h => ?_).job.trans hi
  rw [h, hn] at hi
  cases hi

theorem wp_assignID {job : Job} {Q : String → World → Prop}
    (hfresh : job.id = "" ∨ w.store.jobs.lookup job.id = none)
    (h : ∀ i, w.store.jobs.lookup i = none → (i = job.id ∨ i ∉ ρ.reserved) → i ≠ "" → Q i w) :
    wp ρ.env.every (assignID job) Q w := by
  rw [assignID]
  split
  · exact wp_newUUIDv7 fun i hne hn hres => h i hn (.inr hres) hne
  · rename_i hne
    exact h job.id (hfresh.resolve_left hne) (.inl rfl) hne

include hρ

/-! ## A new job -/

theorem pushScheduled_moves {job : Job} {now at' : Time} (hg : Good cfg κ [] w)
    (hn : w.store.jobs.lookup job.id = none) :
    wp ρ.env.every (pushScheduled cfg now at' job) (fun _ w' => Moves cfg κ w₀ o w w') w := by
  have hu := hg.unknown job.id hn
  have hset := touch_setJob job.id hg.sound
    (jobToRecord { job with state := .scheduled, enqueuedAt := cfg.formatTime now })
  have hdue := touch_addDue job.id hset.sound .scheduled at'.unixMilli
  have hreg := touch_registerQueue job.id hdue.sound job.queue
  rw [pushScheduled]
  simp only
  rw [wp_bind, wp_putJob hρ]
  simp only
  rw [wp_bind, addScheduledJob, wp_addDueJob hρ]
  simp only
  rw [wp_bind, wp_registerQueue hρ]
  refine hg.arrive hn (hset.trans (hdue.trans hreg)) (r := jobToRecord { job with
    state := .scheduled, enqueuedAt := cfg.formatTime now }) ?_ (.ofEmpty rfl ?_
    ⟨fun h => (by cases h), fun h => by cases h⟩ ?_ ?_ ?_ (fun _ => rfl))
  · rw [World.registerQueue_jobs]
    exact World.setJob_lookup _ _
  · rw [World.registerQueue_sqs]
    exact hu.messages
  · rw [World.registerQueue_marked, World.addDue_marked, if_pos ⟨rfl, rfl⟩]
    rfl
  · rw [World.registerQueue_marked, World.addDue_marked, if_neg (fun h => by cases h.1)]
    exact hu.marked .retry
  · rw [World.registerQueue_dead]
    exact fun h => absurd hu.dead (by rw [show w.dead job.id = true from h]; decide)

theorem pushAvailable_moves {job : Job} {now : Time} (hg : Good cfg κ [] w)
    (hn : w.store.jobs.lookup job.id = none) :
    wp ρ.env.every (pushAvailable cfg now job) (fun a w' =>
      (κ.lossless = true → ∃ j, a = .ok j) → Moves cfg κ w₀ o w w') w := by
  have hu := hg.unknown job.id hn
  rw [pushAvailable]
  simp only
  generalize hjob : ({ job with state := .available, enqueuedAt := cfg.formatTime now } : Job) = j
  have hid : j.id = job.id := by rw [← hjob]
  have hst : j.state = .available := by rw [← hjob]
  rw [show job.queue = j.queue by rw [← hjob]]
  have hset := touch_setJob job.id hg.sound (jobToRecord j)
  have hreg := touch_registerQueue job.id hset.sound j.queue
  have hsent := touch_sendJob hreg.sound hid
  rw [wp_bind, wp_putJob hρ, show (jobToRecord j).id = job.id from hid]
  simp only
  rw [wp_bind, wp_registerQueue hρ]
  simp only
  rw [wp_bind, wp_sendToSQS cfg hρ]
  have harrive : (κ.lossless = true → encodes cfg j = true) → Moves cfg κ w₀ o w
      (((w.setJob job.id (jobToRecord j)).registerQueue j.queue).sendJob cfg j) := by
    intro hl
    refine hg.arrive hn (hset.trans (hreg.trans hsent)) (r := jobToRecord j) ?_
      (Fits.sent κ (jobToRecord j) j hreg.sound ?_ (fun x => ?_) ?_ hid hst rfl hid rfl rfl hl)
    · rw [World.sendJob_store, World.registerQueue_jobs]
      exact World.setJob_lookup _ _
    · rw [World.registerQueue_sqs]
      exact hu.messages
    · rw [World.registerQueue_marked]
      exact hu.marked x
    · rw [World.registerQueue_dead]
      exact hu.dead
  cases he : encodeJob cfg j with
  | error e =>
    intro hok
    refine harrive fun hκ => ?_
    obtain ⟨j', hj'⟩ := hok hκ
    cases hj'
  | ok body =>
    intro _
    refine harrive fun _ => ?_
    rw [encodes, he]
    rfl

variable (w₀) in
theorem pushNew_moves (o : Op) {job : Job} {now : Time} (hg : Good cfg κ [] w)
    (hn : w.store.jobs.lookup job.id = none) :
    wp ρ.env.every (pushNew cfg now job) (fun a w' =>
      (κ.lossless = true → ∃ j, a = .ok j) → Moves cfg κ w₀ o w w') w := by
  rw [pushNew]
  cases futureInstant cfg now job with
  | none => exact pushAvailable_moves hρ hg hn
  | some at' =>
    exact wp_mono (Env.every_mono _) _ (pushScheduled_moves hρ hg hn) fun _ _ h _ => h

/-! ## The unique key -/

/-- A key that is not there is taken, and one that is there is not. -/
theorem wp_claimUniqueKey {policy : UniquePolicy} {fp : String}
    {Q : Except Error Unit → World → Prop}
    (htaken : ∀ item t, w.store.uniqueKeys.lookup fp = some item → ρ.mayShow w t →
      Q (.error (duplicateError [("unique_key", fp)])) (w.setClock t))
    (hfree : ∀ t, w.store.uniqueKeys.lookup fp = none → ρ.mayShow w t →
      Q (.ok ()) ((w.setClock t).setUniqueKeys
        (w.store.uniqueKeys.insert fp ⟨id, t.unix + uniqueTTL cfg policy⟩))) :
    wp ρ.env.every (claimUniqueKey cfg policy fp id) Q w := by
  rw [claimUniqueKey, wp_bind, setUniqueKey, wp_bind]
  refine wp_timeNow fun t ht => ?_
  rw [request, wp_bind, wp_dynamo hρ rfl]
  cases hk : w.store.uniqueKeys.lookup fp with
  | some item =>
    have hk' : (w.setClock t).store.uniqueKeys.lookup fp = some item := hk
    simp only [Store.run, hk', wp_pure]
    exact htaken item t hk ht
  | none =>
    have hk' : (w.setClock t).store.uniqueKeys.lookup fp = none := hk
    simp only [Store.run, hk', wp_pure]
    exact hfree t hk ht

/-- The jobs an operation may cancel: the one it names, or the holder of the
unique key a Push replaces. -/
def Op.cancels (cfg : Config) (w : World) : Op → String → Prop
  | .cancel jobID, id => id = jobID
  | .push job, id => ∃ policy item r, job.unique = some policy ∧
      conflictOf policy = "replace" ∧
      w.store.uniqueKeys.lookup (computeFingerprint cfg policy job) = some item ∧
      item.jobID = id ∧ w.store.jobs.lookup id = some r ∧ isRelevant policy r.state = true
  | _, _ => False

variable (w₀) in
/-- Whatever the check for the key's holder does, a job that was not stored is
still not stored. -/
theorem resolveConflict_moves (job : Job) {policy : UniquePolicy} {fp existing : String}
    (hg : Good cfg κ [] w)
    (hc : κ.leftover = true ∨ ∀ r, conflictOf policy = "replace" →
      w.store.jobs.lookup existing = some r → isRelevant policy r.state = true →
      CancelReaches existing w) :
    wp ρ.env.every (resolveConflict cfg policy fp existing) (fun _ w' =>
      Moves cfg κ w₀ (.push job) w w' ∧
        ∀ i, w.store.jobs.lookup i = none → w'.store.jobs.lookup i = none) w := by
  have hstay : Moves cfg κ w₀ (.push job) w w ∧
      ∀ i, w.store.jobs.lookup i = none → w.store.jobs.lookup i = none :=
    ⟨.none hg, fun _ h => h⟩
  rw [resolveConflict, wp_bind]
  cases hr : w.store.jobs.lookup existing with
  | none =>
    rw [wp_getJob_none hρ hr]
    exact hstay
  | some r =>
    rw [wp_getJob_some hρ hr]
    simp only [wp_ite, wp_pure, wp_bind]
    split
    · rename_i hrel
      split
      · exact hstay
      · split
        · exact hstay
        · split
          · rename_i hrep
            refine wp_mono (Env.every_mono _) _ (cancel_moves hρ w₀ (.push job)
              (fun _ _ h => .replace h) hg (hc.imp_right fun hc => hc r hrep hr hrel)) ?_
            intro a w' h
            cases a with
            | error e =>
              simp only [wp_ite, wp_pure]
              split <;> exact h
            | ok _ => exact h
          · exact hstay
    · exact hstay

variable (w₀) in
theorem pushUnique_moves (job : Job) {j : Job} {policy : UniquePolicy} (hg : Good cfg κ [] w)
    (hn : w.store.jobs.lookup j.id = none)
    (hc : κ.leftover = true ∨ ∀ item r, conflictOf policy = "replace" →
      w.store.uniqueKeys.lookup (computeFingerprint cfg policy j) = some item →
      w.store.jobs.lookup item.jobID = some r → isRelevant policy r.state = true →
      CancelReaches item.jobID w) :
    wp ρ.env.every (pushUnique cfg policy j) (fun _ w' =>
      Moves cfg κ w₀ (.push job) w w' ∧ w'.store.jobs.lookup j.id = none) w := by
  have hfind : wp ρ.env.every (findExisting cfg policy (computeFingerprint cfg policy j))
      (fun _ w' => Moves cfg κ w₀ (.push job) w w' ∧
        w'.store.jobs.lookup j.id = none) w := by
    rw [findExisting, wp_bind]
    cases hk : w.store.uniqueKeys.lookup (computeFingerprint cfg policy j) with
    | none =>
      rw [wp_getUniqueKey_none hρ hk]
      exact ⟨.none hg, hn⟩
    | some item =>
      rw [wp_getUniqueKey_some hρ hk]
      simp only [wp_ite, wp_pure]
      split
      · exact ⟨.none hg, hn⟩
      · refine wp_mono (Env.every_mono _) _ (resolveConflict_moves hρ w₀ job hg
          (hc.imp_right fun hc r hrep hr hrel => hc item r hrep hk hr hrel)) ?_
        exact fun _ w' h => ⟨h.1, h.2 _ hn⟩
  rw [pushUnique, wp_bind]
  refine wp_mono (Env.every_mono _) _ hfind ?_
  rintro a w₁ ⟨hmoved, hn₁⟩
  cases a with
  | error e => exact ⟨hmoved, hn₁⟩
  | ok existing =>
    cases existing with
    | some _ => exact ⟨hmoved, hn₁⟩
    | none =>
      simp only
      rw [wp_bind]
      have htrans : ∀ w', Moves cfg κ w₀ (.push job) w₁ w' → Moves cfg κ w₀ (.push job) w w' :=
        fun _ => hmoved.trans fun _ _ _ _ _ => nofun
      refine wp_claimUniqueKey hρ (fun item t _ _ => ?_) (fun t _ _ => ?_)
      · exact ⟨htrans _ (hmoved.good.aside t rfl rfl rfl rfl), hn₁⟩
      · exact ⟨htrans _ (hmoved.good.aside t rfl rfl rfl rfl), hn₁⟩

/-! ## Push -/

theorem push_moves {job : Job} (hg : Good cfg κ [] w)
    (hfresh : job.id = "" ∨ w.store.jobs.lookup job.id = none)
    (hc : κ.leftover = true ∨ ∀ i, Op.cancels cfg w (.push job) i → CancelReaches i w) :
    wp ρ.env.every (push cfg job) (fun a w' =>
      (κ.lossless = true → ∃ j, a = .ok j) → Moves cfg κ w (.push job) w w') w := by
  have hnew : ∀ {w₁ j now}, Moves cfg κ w (.push job) w w₁ →
      w₁.store.jobs.lookup j.id = none → wp ρ.env.every (pushNew cfg now j) (fun a w' =>
        (κ.lossless = true → ∃ j, a = .ok j) → Moves cfg κ w (.push job) w w') w₁ := by
    intro w₁ j now hmoved hn
    refine wp_mono (Env.every_mono _) _ (pushNew_moves hρ w (.push job)
      hmoved.good hn) fun a w' h hok => ?_
    exact hmoved.trans (fun _ _ _ _ _ => nofun) (h hok)
  rw [push, wp_bind]
  refine wp_timeNow fun t _ => ?_
  have hclock : Moves cfg κ w (.push job) w (w.setClock t) := hg.aside t rfl rfl rfl rfl
  rw [wp_bind]
  refine wp_assignID hfresh fun i hn _ _ => ?_
  simp only
  cases hu : job.unique with
  | none => exact hnew hclock hn
  | some policy =>
    simp only
    rw [wp_bind]
    refine wp_mono (Env.every_mono _) _ (pushUnique_moves hρ w job hclock.good hn
      (hc.imp_right fun hc item r hrep hk hr hrel => ?_)) ?_
    · exact hc item.jobID ⟨policy, item, r, hu, hrep, hk, rfl, hr, hrel⟩
    · rintro a w₁ ⟨hmoved, hn₁⟩
      have hmoved : Moves cfg κ w (.push job) w w₁ :=
        hclock.trans (fun _ _ _ _ _ => nofun) hmoved
      cases a with
      | error e => exact fun _ => hmoved
      | ok existing =>
        cases existing with
        | some _ => exact fun _ => hmoved
        | none => exact hnew hmoved hn₁

/-! ## PushBatch -/

omit hρ

/-- A job of a batch that is stored and not yet sent. -/
structure Unsent (w : World) (job : Job) : Prop where
  stored : ∃ r, w.store.jobs.lookup job.id = some r ∧ r.state = .available ∧
    r.sqsReceiptHandle = none ∧ r.queue = job.queue ∧ r.expiresAt = job.expiresAt
  messages : w.sqs.messagesOf job.id = []

/-- From `w` to `w'` only messages of the jobs `ids` have been sent. -/
structure SentOnly (ids : List String) (w w' : World) : Prop where
  store : w'.store = w.store
  messages : ∀ i, i ∉ ids → w'.sqs.messagesOf i = w.sqs.messagesOf i

theorem SentOnly.refl (ids : List String) (w : World) : SentOnly ids w w :=
  ⟨rfl, fun _ _ => rfl⟩

theorem SentOnly.trans {ids ids' all : List String} {w' w'' : World} (h : SentOnly ids w w')
    (h' : SentOnly ids' w' w'') (hsub : ids ⊆ all) (hsub' : ids' ⊆ all) : SentOnly all w w'' :=
  ⟨h'.store.trans h.store, fun i hi => (h'.messages i fun hm => hi (hsub' hm)).trans
    (h.messages i fun hm => hi (hsub hm))⟩

theorem SentOnly.mono {ids all : List String} {w' : World} (h : SentOnly ids w w')
    (hsub : ids ⊆ all) : SentOnly all w w' :=
  ⟨h.store, fun i hi => h.messages i fun hm => hi (hsub hm)⟩

theorem Unsent.keep {w' : World} {ids : List String} {job : Job} (h : Unsent w job)
    (hs : SentOnly ids w w') (hid : job.id ∉ ids) : Unsent w' job :=
  ⟨by rw [hs.store]; exact h.stored, (hs.messages _ hid).trans h.messages⟩

/-- A job that is sent alone. -/
theorem Good.sendOne {job : Job} (hκ : κ.lossless = false) (hg : Good cfg κ [] w)
    (hu : Unsent w job) : Good cfg κ [] (w.setSqs (w.sqs.send (sqsQueueName cfg job.queue)
      (outMessage cfg job job))) ∧ SentOnly [job.id] w
        (w.setSqs (w.sqs.send (sqsQueueName cfg job.queue) (outMessage cfg job job))) := by
  obtain ⟨r, hr, hst, hh, hq, hx⟩ := hu.stored
  have hf := hg.fits job.id r hr
  have ht : Touch cfg job.id w _ :=
    touch_send hg.sound (m := outMessage cfg job job) rfl (sqsQueueName cfg job.queue)
  have hmo : (w.setSqs (w.sqs.send (sqsQueueName cfg job.queue)
      (outMessage cfg job job))).sqs.messagesOf job.id =
      [w.sqs.sent (sqsQueueName cfg job.queue) (outMessage cfg job job)] := by
    rw [World.setSqs, SqsState.send_messagesOf, hu.messages,
      if_pos (show (outMessage cfg job job).body.id = job.id from rfl)]
    rfl
  refine ⟨hg.touch ht.frame ht.sound hr ⟨hf.id_eq, ?_, ?_, ?_, hf.scheduled, hf.retry, hf.dead,
    hf.noHandle, fun h => ?_⟩, rfl, fun i hi => ?_⟩
  · rw [hmo]
    intro m hm
    rw [List.mem_singleton.mp hm]
    exact ⟨by rw [hq]; rfl, job, rfl, hx.symm⟩
  · rw [hmo, hst]
    exact le_refl _
  · intro h
    rw [hκ] at h
    cases h
  · rw [hst] at h
    cases h
  · exact (ht.frame.others i (by simpa using hi)).messages

/-- The entries of a request, one after the other. -/
theorem Good.sendEntries (hκ : κ.lossless = false) {chunk : List Job} {url : String}
    (hg : Good cfg κ [] w) (hids : (chunk.map (·.id)).Nodup)
    (hurl : ∀ job ∈ chunk, sqsQueueName cfg job.queue = url) (hu : ∀ job ∈ chunk, Unsent w job) :
    let w' := w.setSqs (w.sqs.sendBatch url (chunk.map fun job => outMessage cfg job job))
    Good cfg κ [] w' ∧ SentOnly (chunk.map (·.id)) w w' := by
  induction chunk generalizing w with
  | nil => exact ⟨hg, .refl _ w⟩
  | cons job chunk ih =>
    obtain ⟨hnot, hids⟩ := List.nodup_cons.mp hids
    have hfirst := hg.sendOne hκ (hu job List.mem_cons_self)
    rw [hurl job List.mem_cons_self] at hfirst
    obtain ⟨hg₁, hs₁⟩ := hfirst
    obtain ⟨hg₂, hs₂⟩ := ih hg₁ hids (fun j hj => hurl j (List.mem_cons_of_mem _ hj))
      fun j hj => (hu j (List.mem_cons_of_mem _ hj)).keep hs₁ fun h =>
        hnot (List.mem_map.mpr ⟨j, hj, List.mem_singleton.mp h⟩)
    exact ⟨hg₂, hs₁.trans hs₂ (by simp) (by simp)⟩

theorem encodeChunk_entries {chunk : List Job} {entries : List OutMessage}
    (h : encodeChunk cfg chunk = .ok entries) :
    entries = chunk.map fun job => outMessage cfg job job := by
  induction chunk generalizing entries with
  | nil =>
    cases h
    rfl
  | cons job chunk ih =>
    rw [encodeChunk] at h
    cases he : encodeJob cfg job with
    | error e => rw [he] at h; cases h
    | ok body =>
      cases hc : encodeChunk cfg chunk with
      | error e => rw [he, hc] at h; cases h
      | ok rest =>
        rw [he, hc] at h
        cases h
        rw [encodeJob_body he, ih hc]
        rfl

/-- The chunks of a list, one after the other, are the list. -/
theorem chunksOf_flatten (jobs : List Job) : (chunksOf jobs).flatten = jobs := by
  rw [chunksOf, ← List.flatMap_def, flatMap_slices]
  exact List.take_of_length_le (by omega)

include hρ

theorem sendChunks_moves (hκ : κ.lossless = false) (chunks : List (List Job)) {url : String}
    (hg : Good cfg κ [] w) (hids : (chunks.flatten.map (·.id)).Nodup)
    (hurl : ∀ job ∈ chunks.flatten, sqsQueueName cfg job.queue = url)
    (hu : ∀ job ∈ chunks.flatten, Unsent w job) :
    wp ρ.env.every (sendChunks cfg url chunks) (fun _ w' =>
      Good cfg κ [] w' ∧ SentOnly (chunks.flatten.map (·.id)) w w') w := by
  induction chunks generalizing w with
  | nil => exact ⟨hg, .refl _ w⟩
  | cons chunk chunks ih =>
    rw [List.flatten_cons, List.map_append] at hids
    obtain ⟨hids₁, hids₂, hdisj⟩ := List.nodup_append.mp hids
    rw [sendChunks]
    cases he : encodeChunk cfg chunk with
    | error e => exact ⟨hg, .refl _ w⟩
    | ok entries =>
      simp only
      rw [wp_bind, wp_sqs hρ rfl, encodeChunk_entries he]
      obtain ⟨hg₁, hs₁⟩ := hg.sendEntries hκ hids₁
        (fun job hj => hurl job (List.mem_append_left _ hj))
        fun job hj => hu job (List.mem_append_left _ hj)
      refine wp_mono (Env.every_mono _) _ (ih hg₁ hids₂
        (fun job hj => hurl job (List.mem_append_right _ hj)) fun job hj => ?_) ?_
      · refine (hu job (List.mem_append_right _ hj)).keep hs₁ fun h => ?_
        exact hdisj _ h _ (List.mem_map_of_mem hj) rfl
      · rintro _ w' ⟨hg₂, hs₂⟩
        exact ⟨hg₂, hs₁.trans hs₂ (by simp) (by simp)⟩

theorem sendGroups_moves (hκ : κ.lossless = false) {jobs : List Job} {queues : List String}
    (hg : Good cfg κ [] w) (hids : (jobs.map (·.id)).Nodup) (hq : queues.Nodup)
    (hu : ∀ job ∈ jobs, job.queue ∈ queues → Unsent w job) :
    wp ρ.env.every (sendGroups cfg jobs queues) (fun _ w' =>
      Good cfg κ [] w' ∧ w'.store = w.store) w := by
  induction queues generalizing w with
  | nil => exact ⟨hg, rfl⟩
  | cons queue queues ih =>
    obtain ⟨hnot, hq⟩ := List.nodup_cons.mp hq
    rw [sendGroups, wp_bind, wp_getOrCreateQueueURL cfg hρ, hg.sound.urlOf]
    simp only
    rw [wp_bind]
    have hst := w.openQueue_store cfg queue
    have hg₀ := hg.openQueue queue
    have hs₀ : SentOnly [] w (w.openQueue cfg queue) :=
      ⟨hst, fun i _ => w.openQueue_messagesOf cfg queue i⟩
    have hgroup := chunksOf_flatten (jobs.filter (·.queue = queue))
    refine wp_mono (Env.every_mono _) _ (sendChunks_moves hρ hκ
      (chunksOf (jobs.filter (·.queue = queue))) hg₀ ?_ ?_ ?_) ?_
    · rw [hgroup]
      exact hids.sublist (List.filter_sublist.map _)
    · rw [hgroup]
      intro job hj
      rw [of_decide_eq_true (List.mem_filter.mp hj).2]
    · rw [hgroup]
      intro job hj
      obtain ⟨hmem, hjq⟩ := List.mem_filter.mp hj
      exact (hu job hmem (by simp [of_decide_eq_true hjq])).keep hs₀ List.not_mem_nil
    · rintro a w₁ ⟨hg₁, hs₁⟩
      rw [hgroup] at hs₁
      cases a with
      | error e => exact ⟨hg₁, hs₁.store.trans hst⟩
      | ok _ =>
        refine wp_mono (Env.every_mono _) _ (ih hg₁ hq fun job hj hjq => ?_) ?_
        · refine ((hu job hj (List.mem_cons_of_mem _ hjq)).keep hs₀ List.not_mem_nil).keep hs₁ ?_
          intro h
          obtain ⟨job', hj', hid⟩ := List.mem_map.mp h
          obtain ⟨hmem', hq'⟩ := List.mem_filter.mp hj'
          have hsame := List.inj_on_of_nodup_map hids hmem' hj hid
          rw [hsame] at hq'
          exact hnot (of_decide_eq_true hq' ▸ hjq)
        · rintro _ w' ⟨hg₂, hs₂⟩
          exact ⟨hg₂, hs₂.trans (hs₁.store.trans hst)⟩

/-- The jobs `rest` of a batch may still be stored: their identifiers are new. -/
structure Storable (ρ : Rules) (w : World) (rest : List Job) : Prop where
  nodup : ((rest.map (·.id)).filter (· ≠ "")).Nodup
  fresh : ∀ job ∈ rest, job.id = "" ∨ w.store.jobs.lookup job.id = none
  reserved : ∀ job ∈ rest, job.id ≠ "" → job.id ∈ ρ.reserved

omit hρ in
/-- A job has been stored under `i`; the others are still to come. -/
theorem Storable.tail {w' : World} {job : Job} {rest : List Job} {i : String}
    (h : Storable ρ w (job :: rest)) (hi : i = job.id ∨ i ∉ ρ.reserved) (hne : i ≠ "")
    (hothers : ∀ j, j ≠ i → w'.store.jobs.lookup j = w.store.jobs.lookup j) :
    Storable ρ w' rest := by
  have hnd : ((rest.map (·.id)).filter (· ≠ "")).Nodup :=
    h.nodup.sublist (((List.sublist_cons_self job rest).map _).filter _)
  refine ⟨hnd, fun j hj => ?_, fun j hj => h.reserved j (List.mem_cons_of_mem _ hj)⟩
  by_cases hj0 : j.id = ""
  · exact .inl hj0
  · refine .inr ((hothers j.id fun hji => ?_).trans
      ((h.fresh j (List.mem_cons_of_mem _ hj)).resolve_left hj0))
    rcases hi with hi | hi
    · have hnd' := h.nodup
      rw [List.map_cons, List.filter_cons, if_pos (by simpa [← hi] using hne)] at hnd'
      refine (List.nodup_cons.mp hnd').1 (List.mem_filter.mpr ⟨?_, by simpa [← hi] using hne⟩)
      rw [← hi, ← hji]
      exact List.mem_map_of_mem hj
    · exact hi (hji ▸ h.reserved j (List.mem_cons_of_mem _ hj) hj0)

omit hρ in
/-- A stored job that has not been sent yet fits, when lost messages are no
question. -/
theorem Fits.unsent {r : JobRecord} (hκ : κ.lossless = false) (hm : w.sqs.messagesOf id = [])
    (hmark : ∀ x, w.marked x id = false) (hdead : w.dead id = false) (hid : r.id = id)
    (hst : r.state = .available) (hh : r.sqsReceiptHandle = none) : Fits cfg κ [] w id r := by
  refine ⟨hid, ?_, ?_, ?_, ?_, ?_, ?_, fun _ => hh, ?_⟩
  · rw [hm]
    simp
  · rw [hm]
    exact Nat.zero_le _
  · intro h
    rw [hκ] at h
    cases h
  · rw [hmark, hst]
    rfl
  · rw [hmark, hst]
    rfl
  · exact fun h => absurd hdead (by rw [h]; decide)
  · intro h
    rw [hst] at h
    cases h

variable (w₀) in
theorem storeBatch_moves (jobs : List Job) (hκ : κ.lossless = false) {rest : List Job}
    (done : List Job) {now : Time} (hg : Good cfg κ [] w) (hrest : Storable ρ w rest)
    (hdone : (done.map (·.id)).Nodup) (hu : ∀ job ∈ done, Unsent w job) :
    wp ρ.env.every (storeBatch cfg now rest done) (fun a w' =>
      Moves cfg κ w₀ (.pushBatch jobs) w w' ∧ ∀ stored, a = .ok stored →
        (stored.map (·.id)).Nodup ∧ ∀ job ∈ stored, Unsent w' job) w := by
  induction rest generalizing w done with
  | nil =>
    refine ⟨.none hg, fun stored h => ?_⟩
    cases h
    exact ⟨hdone, hu⟩
  | cons job rest ih =>
    rw [storeBatch, wp_bind]
    refine wp_assignID (hrest.fresh job List.mem_cons_self) fun i hn hi hne => ?_
    simp only
    generalize hj : ({ job with
      id := i
      state := .available
      attempt := 0
      createdAt := cfg.formatTime now
      enqueuedAt := cfg.formatTime now } : Job) = j
    have hid : j.id = i := by rw [← hj]
    have hst : j.state = .available := by rw [← hj]
    rw [show job.queue = j.queue by rw [← hj]]
    rw [wp_bind, wp_putJob hρ, show (jobToRecord j).id = i from hid]
    simp only
    rw [wp_bind, wp_registerQueue hρ]
    have hunk := hg.unknown i hn
    have hset := touch_setJob i hg.sound (jobToRecord j)
    have hreg := touch_registerQueue i hset.sound j.queue
    have htouch := hset.trans hreg
    have hr' : ((w.setJob i (jobToRecord j)).registerQueue j.queue).store.jobs.lookup i =
        some (jobToRecord j) := by
      rw [World.registerQueue_jobs]
      exact World.setJob_lookup _ _
    have hm' : ((w.setJob i (jobToRecord j)).registerQueue j.queue).sqs.messagesOf i = [] := by
      rw [World.registerQueue_sqs]
      exact hunk.messages
    have hmoved : Moves cfg κ w₀ (.pushBatch jobs) w
        ((w.setJob i (jobToRecord j)).registerQueue j.queue) := by
      refine hg.arrive hn htouch hr' (.unsent hκ hm' (fun x => ?_) ?_ hid hst rfl)
      · rw [World.registerQueue_marked]
        exact hunk.marked x
      · rw [World.registerQueue_dead]
        exact hunk.dead
    have hold : ∀ k ∈ done, k.id ≠ i := by
      intro k hk hki
      obtain ⟨r, hr, _⟩ := (hu k hk).stored
      rw [hki, hn] at hr
      cases hr
    have hothers := fun k hk => (htouch.frame.others k hk).job
    refine wp_mono (Env.every_mono _) _ (ih _ hmoved.good (hrest.tail hi hne hothers) ?_ ?_) ?_
    · rw [List.map_append, List.nodup_append]
      refine ⟨hdone, by simp, ?_⟩
      intro a ha b hb hab
      obtain ⟨k, hk, rfl⟩ := List.mem_map.mp ha
      rw [List.map_singleton, List.mem_singleton, hid] at hb
      exact hold k hk (hab.trans hb)
    · intro k hk
      rcases List.mem_append.mp hk with hk | hk
      · have hunt := htouch.frame.others k.id (hold k hk)
        obtain ⟨hstored, hmsgs⟩ := hu k hk
        exact ⟨by rw [hunt.job]; exact hstored, hunt.messages.trans hmsgs⟩
      · rw [List.mem_singleton.mp hk]
        exact ⟨⟨jobToRecord j, by rw [hid]; exact hr', hst, rfl, rfl, rfl⟩, by rw [hid]; exact hm'⟩
    · rintro a w' ⟨h, hstored⟩
      exact ⟨hmoved.trans (fun _ _ _ _ _ => nofun) h, hstored⟩

theorem pushBatch_moves {jobs : List Job} (hκ : κ.lossless = false) (hg : Good cfg κ [] w)
    (hs : Storable ρ w jobs) :
    wp ρ.env.every (pushBatch cfg jobs)
      (fun _ w' => Moves cfg κ w (.pushBatch jobs) w w') w := by
  rw [pushBatch, wp_ite]
  split
  · exact .none hg
  · cases validateBatch cfg jobs with
    | some e => exact .none hg
    | none =>
      simp only
      rw [wp_bind]
      refine wp_timeNow fun t _ => ?_
      have hclock : Moves cfg κ w (.pushBatch jobs) w (w.setClock t) :=
        hg.aside t rfl rfl rfl rfl
      rw [wp_bind]
      refine wp_mono (Env.every_mono _) _ (storeBatch_moves hρ w jobs hκ []
        hclock.good ⟨hs.nodup, hs.fresh, hs.reserved⟩ List.nodup_nil
        (fun _ h => absurd h List.not_mem_nil)) ?_
      rintro a w₁ ⟨hmoved, hstored⟩
      have hmoved : Moves cfg κ w (.pushBatch jobs) w w₁ :=
        hclock.trans (fun _ _ _ _ _ => nofun) hmoved
      cases a with
      | error e => exact hmoved
      | ok stored =>
        obtain ⟨hids, hu⟩ := hstored stored rfl
        simp only
        rw [wp_bind, sendBatchToSQS, wp_bind]
        refine wp_rangeMap fun order hperm => ?_
        refine wp_mono (Env.every_mono _) _ (sendGroups_moves hρ hκ hmoved.good hids
          (hperm.nodup_iff.mpr (List.nodup_dedup _)) fun job hj _ => hu job hj) ?_
        rintro b w₂ ⟨hg₂, hst₂⟩
        have hend : Moves cfg κ w (.pushBatch jobs) w w₂ := by
          refine hmoved.trans (fun _ _ _ _ _ => nofun) ⟨hg₂, fun i r hr => ⟨r, ?_, rfl, .inl rfl⟩⟩
          rw [hst₂]
          exact hr
        cases b <;> exact hend

end OjsSqs
