import OjsSqs.Lifecycle.Finish

/-! # Fetch hands jobs out

A receive gives new handles to several messages at once, and Fetch then comes
to the deliveries one by one. The deliveries it has not come to yet are the
pending ones of the invariant. Since a job has at most one message, each
delivery concerns a job of its own. -/
namespace OjsSqs
open Calls

variable {cfg : Config} {κ : Regime} {ρ : Rules} (hρ : ρ.faults = false) {w : World}
  (w₀ : World) {id : String} {o : Op} {r : JobRecord} {d : Delivery} {ds : List Delivery} {url : String}

/-- The delivery's message is in the queue and carries the delivery's handle. -/
def Handed (w : World) (url : String) (d : Delivery) : Prop :=
  ∃ m ∈ w.sqs.messages, m.id = d.messageID ∧ m.body = d.body ∧ m.queueURL = url ∧
    m.receipt = some d.receiptHandle

/-- A delivery that is no message of the job need not be pending for it. -/
theorem Fits.settle (hf : Fits cfg κ (d :: ds) w id r)
    (h : ∀ m ∈ w.sqs.messagesOf id, m.id ≠ d.messageID) : Fits cfg κ ds w id r := by
  refine ⟨hf.id_eq, hf.about, hf.messages, hf.present, hf.scheduled, hf.retry, hf.dead,
    hf.noHandle, fun hs => ?_⟩
  obtain ⟨h', hh, ho, hall⟩ := hf.active hs
  refine ⟨h', hh, ho, fun m hm => (hall m hm).imp_right ?_⟩
  rintro ⟨d', hd', hid⟩
  rcases List.mem_cons.mp hd' with rfl | hd'
  · exact absurd hid.symm (h m hm)
  · exact ⟨d', hd', hid⟩

/-! ## The receive -/

/-- After a receive every job fits again, with the deliveries pending. -/
theorem Good.receive (hg : Good cfg κ [] w) {max : Nat} (vis : Int) {ids : List MessageId}
    (hp : w.sqs.mayPick url max ids = true)
    (hl : κ.lossless = true → w.sqs.noneExhausted ids = true) :
    Good cfg κ (w.sqs.receive vis ids).1 (w.setSqs (w.sqs.receive vis ids).2) ∧
      (∀ d ∈ (w.sqs.receive vis ids).1, Handed (w.setSqs (w.sqs.receive vis ids).2) url d) ∧
      ((w.sqs.receive vis ids).1.map (·.messageID)).Nodup ∧
      (w.sqs.receive vis ids).1.length ≤ max := by
  obtain ⟨hlen, hnodup, hall⟩ := SqsState.picked_of_mayPick hp
  have hspec := SqsState.receive_spec vis hnodup hg.sound.sqs
  have hsub := fun i => SqsState.receive_messagesOf (q := w.sqs) vis ids i
  have hkeeps := SqsState.keeps_receive vis hnodup hg.sound.sqs
  have heq := fun (hκ : κ.lossless = true) i =>
    SqsState.receive_messagesOf_eq (q := w.sqs) vis hnodup (hl hκ) i
  generalize w.sqs.receive vis ids = out at hspec hsub hkeeps heq
  obtain ⟨out, q'⟩ := out
  have hnil : ∀ i, w.sqs.messagesOf i = [] → q'.messagesOf i = [] := by
    intro i hi
    have h := hsub i
    rw [hi] at h
    exact List.map_eq_nil_iff.mp (List.eq_nil_of_sublist_nil h)
  refine ⟨⟨⟨hspec.sound, hg.sound.urls, hg.sound.workflows⟩, fun i hi => ?_, fun i r hr => ?_⟩,
    fun d hd => ?_, hspec.picked.nodup hnodup, ?_⟩
  · have hu := hg.unknown i hi
    exact ⟨hnil i hu.messages, hu.marked, hu.dead⟩
  · have hf := hg.fits i r hr
    have hold : ∀ m' ∈ q'.messagesOf i, ∃ m ∈ w.sqs.messagesOf i, m'.id = m.id ∧
        m'.body = m.body ∧ m'.queueURL = m.queueURL ∧ (m'.receipt = m.receipt ∨
          ∃ d ∈ out, d.messageID = m'.id ∧ m'.receipt = some d.receiptHandle) := by
      intro m' hm'
      obtain ⟨hmem, hjob⟩ := SqsState.mem_messagesOf.mp hm'
      obtain ⟨m, hm, h₁, h₂, h₃, -, h₅⟩ := hspec.messages m' hmem
      refine ⟨m, SqsState.mem_messagesOf.mpr ⟨hm, ?_⟩, h₁, h₂, h₃, h₅⟩
      rw [← hjob, Message.jobID, Message.jobID, h₂]
    refine ⟨hf.id_eq, fun m' hm' => ?_, ?_, fun hκ hs hempty => ?_, hf.scheduled, hf.retry,
      hf.dead, hf.noHandle, fun hs => ?_⟩
    · obtain ⟨m, hm, -, hbody, hurl, -⟩ := hold m' hm'
      have ha := hf.about m hm
      exact ⟨hurl.trans ha.queueURL, by rw [hbody]; exact ha.body⟩
    · have h := (hsub i).length_le
      rw [List.length_map, List.length_map] at h
      exact h.trans hf.messages
    · have h := heq hκ i
      have hempty : q'.messagesOf i = [] := hempty
      rw [hempty] at h
      exact hf.present hκ hs (List.map_eq_nil_iff.mp h.symm)
    · obtain ⟨h, hh, ho, hrec⟩ := hf.active hs
      refine ⟨h, hh, ho.keeps hkeeps, fun m' hm' => ?_⟩
      obtain ⟨m, hm, -, -, -, hr | ⟨d, hd, hid, -⟩⟩ := hold m' hm'
      · rcases hrec m hm with h | ⟨_, h, _⟩
        · exact .inl (hr.trans h)
        · cases h
      · exact .inr ⟨d, hd, hid⟩
  · obtain ⟨m', hm', hid, hbody, hrec⟩ := hspec.deliveries d hd
    obtain ⟨m, hm, hid', -, hurl, -⟩ := hspec.messages m' hm'
    obtain ⟨m₀, hm₀, hid₀, hurl₀, -⟩ := hall d.messageID
      (hspec.picked.subset (List.mem_map_of_mem hd))
    have hsame := hg.sound.sqs.unique hm hm₀ (hid'.symm.trans (hid.trans hid₀.symm))
    exact ⟨m', hm', hid, hbody, hurl.trans (by rw [hsame]; exact hurl₀), hrec⟩
  · have h := hspec.picked.length_le
    rw [List.length_map] at h
    exact h.trans hlen

/-! ## One delivery -/

/-- What Fetch is about to act on: the delivered job is stored, may be handed
out, and the message is the only one it has. -/
structure Deliverable (cfg : Config) (κ : Regime) (w : World) (url : String) (d : Delivery)
    (job : Job) (r : JobRecord) (m : Message) : Prop where
  stored : w.store.jobs.lookup job.id = some r
  mine : w.sqs.messagesOf job.id = [m]
  id : m.id = d.messageID
  queueURL : m.queueURL = url
  receipt : m.receipt = some d.receiptHandle
  owns : Owns job.id d.receiptHandle w.sqs
  expires : job.expiresAt = r.expiresAt
  state : r.state = .available ∨ r.state = .active ∨ κ.leftover = true ∧ r.state = .cancelled
  unmarked : ∀ x, w.marked x job.id = false
  not_dead : w.dead job.id = false

theorem Good.deliverable (hg : Good cfg κ ds w) (hd : Handed w url d) {job : Job}
    (hb : d.body = some job) : ∃ r m, Deliverable cfg κ w url d job r m := by
  obtain ⟨m, hm, hid, hbody, hurl, hrec⟩ := hd
  rw [hb] at hbody
  have hjob : m.jobID = some job.id := by rw [Message.jobID, hbody]; rfl
  have hmem := SqsState.mem_messagesOf.mpr ⟨hm, hjob⟩
  cases hr : w.store.jobs.lookup job.id with
  | none =>
    rw [(hg.unknown job.id hr).messages] at hmem
    cases hmem
  | some r =>
    have hf := hg.fits job.id r hr
    have hlen := hf.messages
    have hpos := List.length_pos_of_mem hmem
    have hstate := maxMessages_pos (lt_of_lt_of_le hpos hlen)
    have hone : w.sqs.messagesOf job.id = [m] := by
      obtain ⟨m', hm'⟩ := List.length_eq_one_iff.mp
        (le_antisymm (hlen.trans (maxMessages_le κ r.state)) hpos)
      rw [hm'] at hmem ⊢
      rw [List.mem_singleton.mp hmem]
    obtain ⟨b, hb', hx⟩ := (hf.about m hmem).body
    rw [hbody] at hb'
    cases hb'
    have hmsg := hg.sound.sqs.receipts m hm d.receiptHandle hrec
    have hne : r.state ≠ .scheduled ∧ r.state ≠ .retryable ∧ r.state ≠ .discarded := by
      rcases hstate with h | h | ⟨_, h⟩ <;> rw [h] <;> decide
    refine ⟨r, m, hr, hone, hid, hurl, hrec, ⟨?_, fun m' hm' hid' => ?_⟩, hx, hstate,
      fun x => ?_, hf.not_dead hne.2.2⟩
    · rw [hmsg]
      exact hg.sound.sqs.fresh m hm
    · rw [hg.sound.sqs.unique hm' hm (hid'.trans hmsg), hjob]
    · cases x with
      | scheduled => rw [hf.scheduled, decide_eq_false hne.1]
      | retry => rw [hf.retry, decide_eq_false hne.2.1]

/-- The other jobs' messages are not the delivered one. -/
theorem Deliverable.others {job : Job} {m : Message} (hd : Deliverable cfg κ w url d job r m)
    (hq : w.sqs.Sound) {i : String} (hi : i ≠ job.id) :
    ∀ m' ∈ w.sqs.messagesOf i, m'.id ≠ d.messageID := by
  intro m' hm' hid
  obtain ⟨hmem', hjob'⟩ := SqsState.mem_messagesOf.mp hm'
  obtain ⟨hmem, hjob⟩ := SqsState.mem_messagesOf.mp
    (show m ∈ w.sqs.messagesOf job.id by rw [hd.mine]; exact List.mem_singleton_self m)
  rw [hq.unique hmem' hmem (hid.trans hd.id.symm), hjob] at hjob'
  exact hi (Option.some.inj hjob').symm

/-- A job that is handed out was available or active, or a cancelled one is
revived. -/
theorem Deliverable.hands_out {fuel : Nat} {queues : List String} {count vis : Int}
    {worker : String} {now : Time} {job : Job} {m : Message} {s : JobState}
    (hd : Deliverable cfg κ w url d job r m)
    (he : r.state = .available ∨ r.state = .active →
      Edge cfg w₀ now job.id r (.fetch fuel queues count worker vis) s) :
    Edge cfg w₀ now job.id r (.fetch fuel queues count worker vis) s ∨
      Revives κ r (.fetch fuel queues count worker vis) := by
  rcases hd.state with hs | hs | ⟨hκ, hs⟩
  · exact .inl (he (.inl hs))
  · exact .inl (he (.inr hs))
  · exact .inr ⟨hκ, hs, _, _, _, _, _, rfl⟩

/-- After one delivery: the others are still pending, at the same instant. -/
structure Fetched (cfg : Config) (κ : Regime) (w₀ : World) (o : Op) (now : Time)
    (ds : List Delivery) (w w' : World) : Prop where
  good : Good cfg κ ds w'
  clock : w'.clock = now
  roams : Roams cfg κ w₀ now o w w'

/-- The job of a message has expired: its record is discarded and the message
deleted. -/
theorem Deliverable.expire (fuel : Nat) (queues : List String) (count vis : Int)
    (worker : String) {now : Time} {job : Job} {m : Message} (hd : Deliverable cfg κ w url d job r m)
    (hg : Good cfg κ (d :: ds) w) (hexp : expired cfg now job = true) :
    let w' := (w.setJob job.id (r.moved .discarded [])).setSqs (w.sqs.delete url d.receiptHandle)
    Good cfg κ ds w' ∧ Roams cfg κ w₀ now (.fetch fuel queues count worker vis) w w' := by
  intro w'
  have hf := hg.fits job.id r hd.stored
  have hset := touch_setJob job.id hg.sound (r.moved .discarded [])
  have htouch : Touch cfg job.id w w' := hset.trans
    (touch_delete hset.sound (show Owns job.id d.receiptHandle _ from hd.owns) url)
  have hm' : w'.sqs.messagesOf job.id = [] := by
    refine (SqsState.messagesOf_filter _ _).trans ?_
    rw [hd.mine]
    simp [hd.queueURL, hd.receipt]
  have hfits : Fits cfg κ ds w' job.id (r.moved .discarded []) := by
    refine .ofEmpty ((JobRecord.moved_id ..).trans hf.id_eq) hm' ⟨nofun, nofun⟩
      (hd.unmarked .scheduled) (hd.unmarked .retry) (fun h => ?_) nofun
    exact absurd hd.not_dead (by rw [show w.dead job.id = true from h]; decide)
  have hr' : w'.store.jobs.lookup job.id = some (r.moved .discarded []) := World.setJob_lookup _ _
  refine ⟨hg.touchTo htouch.frame htouch.sound hr' hfits fun i r' hi hf =>
    hf.settle (hd.others hg.sound.sqs hi), ?_⟩
  refine htouch.frame.roams hd.stored hr' (by simp) (.inr (hd.hands_out w₀ fun hs => .expire hs ?_))
  rw [← hexp]
  exact expired_congr hd.expires.symm

/-- The job of a message is handed out: its record becomes active and stores
the delivery's handle. -/
theorem Deliverable.activate (fuel : Nat) (queues : List String) (count vis now : Int)
    (worker : String) {job : Job} {m : Message} (hd : Deliverable cfg κ w url d job r m)
    (hg : Good cfg κ (d :: ds) w) :
    let w' := w.setJob job.id (r.moved .active (activeUpdates cfg now worker d))
    Good cfg κ ds w' ∧ Roams cfg κ w₀ now (.fetch fuel queues count worker vis) w w' := by
  intro w'
  have hf := hg.fits job.id r hd.stored
  have htouch : Touch cfg job.id w w' := touch_setJob _ hg.sound _
  have hm' : w'.sqs.messagesOf job.id = [m] := hd.mine
  have hfits : Fits cfg κ ds w' job.id
      (r.moved .active (activeUpdates cfg now worker d)) := by
    refine ⟨(JobRecord.moved_id ..).trans hf.id_eq, fun m' hmem => ?_, ?_, fun _ _ => ?_,
      hd.unmarked .scheduled, hd.unmarked .retry, fun h => ?_, nofun,
      fun _ => ⟨d.receiptHandle, rfl, hd.owns, fun m' hmem => ?_⟩⟩
    · have ha := hf.about m' hmem
      exact ⟨by rw [JobRecord.moved_queue]; exact ha.queueURL,
        by rw [JobRecord.moved_expiresAt]; exact ha.body⟩
    · rw [hm']
      exact le_refl 1
    · rw [hm']
      exact List.cons_ne_nil _ _
    · exact absurd hd.not_dead (by rw [show w.dead job.id = true from h]; decide)
    · rw [hm', List.mem_singleton] at hmem
      exact .inl (hmem ▸ hd.receipt)
  have hr' : w'.store.jobs.lookup job.id =
      some (r.moved .active (activeUpdates cfg now worker d)) := World.setJob_lookup _ _
  exact ⟨hg.touchTo htouch.frame htouch.sound hr' hfits fun i r' hi hf =>
    hf.settle (hd.others hg.sound.sqs hi),
    htouch.frame.roams hd.stored hr' (by simp) (.inr (hd.hands_out w₀ fun hs => .fetch hs))⟩

include hρ

theorem fetchMessage_moves (fuel : Nat) (queues : List String) (count vis : Int) {now : Time}
    {worker : String} (hg : Good cfg κ (d :: ds) w) (hc : w.clock = now)
    (hh : ∀ d' ∈ d :: ds, Handed w url d')
    (hids : ((d :: ds).map (·.messageID)).Nodup) :
    wp ρ.env.every (fetchMessage cfg now worker url d) (fun _ w' =>
      Fetched cfg κ w₀ (.fetch fuel queues count worker vis) now ds w w' ∧
        ∀ d' ∈ ds, Handed w' url d') w := by
  rw [fetchMessage]
  have hhd := hh d List.mem_cons_self
  cases hb : d.body with
  | none =>
    refine ⟨⟨⟨hg.sound, hg.unknown, fun i r hr => ?_⟩, hc, .refl _ _⟩,
      fun d' hd' => hh d' (List.mem_cons_of_mem _ hd')⟩
    refine (hg.fits i r hr).settle fun m hm hid => ?_
    obtain ⟨m', hm', hid', hbody, -⟩ := hhd
    obtain ⟨hmem, hjob⟩ := SqsState.mem_messagesOf.mp hm
    rw [hg.sound.sqs.unique hmem hm' (hid.trans hid'.symm), Message.jobID, hbody, hb] at hjob
    cases hjob
  | some job =>
    obtain ⟨r, m, hd⟩ := hg.deliverable hhd hb
    simp only [wp_ite]
    split
    · rename_i hexp
      obtain ⟨hg', hroams⟩ := hd.expire w₀ fuel queues count vis worker hg hexp
      rw [wp_bind, wp_updateJobState_some hρ hd.stored, wp_bind, wp_sqs hρ rfl]
      refine ⟨⟨hg', hc, hroams⟩, fun d' hd' => ?_⟩
      -- the deleted message is not the one of another delivery
      obtain ⟨m', hm', hid', hbody', hurl', hrec'⟩ := hh d' (List.mem_cons_of_mem _ hd')
      refine ⟨m', List.mem_filter.mpr ⟨hm', ?_⟩, hid', hbody', hurl', hrec'⟩
      have hne : d'.messageID ≠ d.messageID := fun h =>
        (List.nodup_cons.mp hids).1 (List.mem_map.mpr ⟨d', hd', h⟩)
      have hreceipt : m'.receipt ≠ some d.receiptHandle := fun h => by
        obtain ⟨m₀, hm₀, hid₀, -, -, hrec₀⟩ := hhd
        have h₁ := hg.sound.sqs.receipts m' hm' _ h
        have h₂ := hg.sound.sqs.receipts m₀ hm₀ _ hrec₀
        exact hne (hid'.symm.trans (h₁.symm.trans (h₂.trans hid₀)))
      simp [hreceipt]
    · obtain ⟨hg', hroams⟩ := hd.activate w₀ fuel queues count vis now worker hg
      rw [wp_bind, wp_updateJobState_some hρ hd.stored]
      simp only
      rw [wp_bind, wp_getJob_some hρ (World.setJob_lookup _ _)]
      exact ⟨⟨hg', hc, hroams⟩, fun d' hd' => hh d' (List.mem_cons_of_mem _ hd')⟩

/-! ## The loops -/

omit hρ in
variable {w₀} in
theorem Fetched.trans {now : Time} {w' w'' : World} {ds' ds'' : List Delivery}
    (h : Fetched cfg κ w₀ o now ds' w w') (h' : Fetched cfg κ w₀ o now ds'' w' w'') :
    Fetched cfg κ w₀ o now ds'' w w'' :=
  ⟨h'.good, h'.clock, h.roams.trans h'.roams⟩

/-- The deliveries of one receive. There is room for all of them, so the loop
never leaves one behind that has been given a handle. -/
theorem fetchMessages_moves (fuel : Nat) (queues : List String) (vis : Int) {count now : Int}
    {worker : String} {jobs : List Job} (hg : Good cfg κ ds w) (hc : w.clock = now)
    (hh : ∀ d ∈ ds, Handed w url d) (hids : (ds.map (·.messageID)).Nodup)
    (hroom : (jobs.length + ds.length : Int) ≤ count) :
    wp ρ.env.every (fetchMessages cfg now worker url count ds jobs) (fun _ w' =>
      Fetched cfg κ w₀ (.fetch fuel queues count worker vis) now [] w w') w := by
  induction ds generalizing w jobs with
  | nil => exact ⟨hg, hc, .refl _ _⟩
  | cons d ds ih =>
    rw [List.length_cons] at hroom
    rw [fetchMessages, wp_ite, if_neg (by push_cast at hroom; omega), wp_bind]
    refine wp_mono (Env.every_mono _) _ (fetchMessage_moves hρ w₀ fuel queues count vis
      hg hc hh hids) ?_
    rintro a w₁ ⟨hf, hh₁⟩
    have hids := (List.nodup_cons.mp hids).2
    cases a with
    | none =>
      refine wp_mono (Env.every_mono _) _ (ih hf.good hf.clock hh₁ hids
        (by push_cast at hroom; omega)) fun _ _ h => hf.trans h
    | some job =>
      refine wp_mono (Env.every_mono _) _ (ih hf.good hf.clock hh₁ hids
        (by rw [List.length_append, List.length_singleton]; push_cast at hroom ⊢; omega))
        fun _ _ h => hf.trans h

theorem fetchQueue_moves (fuel : Nat) (queues : List String) (vis : Int) {count now visSec : Int}
    {worker : String} (hl : κ.lossless = true → ρ.redrive = false) (n : Nat) {jobs : List Job}
    (hg : Good cfg κ [] w) (hc : w.clock = now) :
    wp ρ.env.every (fetchQueue cfg now worker url count visSec n jobs) (fun _ w' =>
      Fetched cfg κ w₀ (.fetch fuel queues count worker vis) now [] w w') w := by
  have hdone : Fetched cfg κ w₀ (.fetch fuel queues count worker vis) now [] w w :=
    ⟨hg, hc, .refl _ _⟩
  induction n generalizing w jobs with
  | zero => exact hdone
  | succ n ih =>
    rw [fetchQueue, wp_ite]
    split
    · rename_i hroom
      rw [wp_bind]
      refine wp_receive hρ fun ids hp hnone => ?_
      obtain ⟨hg₁, hh, hids, hlen⟩ := hg.receive visSec hp fun hκ => hnone (hl hκ)
      have hunt : Roams cfg κ w₀ now (.fetch fuel queues count worker vis) w
          (w.setSqs (w.sqs.receive visSec ids).2) := fun i r hr => ⟨r, hr, rfl, .inl rfl⟩
      generalize (w.sqs.receive visSec ids).1 = out at hg₁ hh hids hlen
      have hf₁ : Fetched cfg κ w₀ (.fetch fuel queues count worker vis) now out w
        (w.setSqs (w.sqs.receive visSec ids).2) := ⟨hg₁, hc, hunt⟩
      cases out with
      | nil => exact hf₁
      | cons d ds =>
        simp only
        rw [wp_bind]
        refine wp_mono (Env.every_mono _) _ (fetchMessages_moves hρ w₀ fuel queues vis
          hg₁ hc hh hids ?_) ?_
        · have hb : batchSize count jobs ≤ count - jobs.length := min_le_left _ _
          have hto := Int.toNat_of_nonneg (le_of_lt hroom.2)
          omega
        · intro jobs' w₂ hf₂
          have hf := hf₁.trans hf₂
          refine wp_mono (Env.every_mono _) _ (ih hf₂.good hf₂.clock
            ⟨hf₂.good, hf₂.clock, .refl _ _⟩) fun _ _ h => hf.trans h
    · exact hdone

theorem fetchQueues_moves (fuel : Nat) (all : List String) (vis : Int) {count now visSec : Int}
    {worker : String} (hl : κ.lossless = true → ρ.redrive = false) (n : Nat)
    {queues : List String} {jobs : List Job} (hg : Good cfg κ [] w) (hc : w.clock = now) :
    wp ρ.env.every (fetchQueues cfg n now worker count visSec queues jobs) (fun _ w' =>
      Fetched cfg κ w₀ (.fetch fuel all count worker vis) now [] w w') w := by
  have hdone : Fetched cfg κ w₀ (.fetch fuel all count worker vis) now [] w w :=
    ⟨hg, hc, .refl _ _⟩
  induction queues generalizing w jobs with
  | nil => exact hdone
  | cons queue queues ih =>
    rw [fetchQueues, wp_ite]
    split
    · exact hdone
    · rw [wp_bind]
      refine wp_isQueuePaused hρ fun paused => ?_
      rw [wp_ite]
      split
      · exact ih hg hc hdone
      · rw [wp_bind, wp_getOrCreateQueueURL cfg hρ]
        simp only
        rw [wp_bind]
        have hf₀ : Fetched cfg κ w₀ (.fetch fuel all count worker vis) now [] w
            (w.openQueue cfg queue) := by
          refine ⟨hg.openQueue queue, by rw [World.openQueue_clock, hc], fun i r hr => ?_⟩
          exact ⟨r, by rw [World.openQueue_store, hr], rfl, .inl rfl⟩
        refine wp_mono (Env.every_mono _) _ (fetchQueue_moves hρ w₀ fuel all vis hl n
          hf₀.good hf₀.clock) ?_
        intro a w₁ hf₁
        have hf := hf₀.trans hf₁
        cases a with
        | none => exact hf
        | some jobs' =>
          refine wp_mono (Env.every_mono _) _ (ih hf₁.good hf₁.clock
            ⟨hf₁.good, hf₁.clock, .refl _ _⟩) fun _ _ h => hf.trans h

theorem fetch_moves {fuel : Nat} {queues : List String} {count vis : Int} {worker : String}
    (hl : κ.lossless = true → ρ.redrive = false) (hg : Good cfg κ [] w) :
    wp ρ.env.every (fetch cfg fuel queues count worker vis)
      (fun _ w' => Moves cfg κ w (.fetch fuel queues count worker vis) w w') w := by
  rw [fetch, wp_bind]
  refine wp_timeNow fun t _ => ?_
  have hclock : Moves cfg κ w (.fetch fuel queues count worker vis) w (w.setClock t) :=
    hg.aside t rfl rfl rfl rfl
  refine wp_mono (Env.every_mono _) _ (fetchQueues_moves hρ w fuel queues vis hl fuel
    hclock.good rfl) ?_
  intro _ w' hf
  refine ⟨hf.good, ?_⟩
  rw [hf.clock]
  exact hf.roams

end OjsSqs
