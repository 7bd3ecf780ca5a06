import OjsSqs.Atomic.Methods
import OjsSqs.Lifecycle.Messages

/-! # The invariant of a job's record, markers and messages

A job lives in three places: its record in the store, the markers of the due
indexes and of the dead letter set, and the messages in its queue. `Fits` says
which markers and how many messages go with each state of the record, and
`Good` that every job fits. Every update of the world below is followed by
what it does to one job's three places, and a `Frame` says that the other
jobs' places are as they were. -/
namespace OjsSqs

/-- Two questions a run may be asked about: whether a cancelled job may have
left a message behind, and whether no message has been lost. -/
structure Regime where
  leftover : Bool
  lossless : Bool

/-- How many messages a job in this state may have. -/
def maxMessages (κ : Regime) : JobState → Nat
  | .available | .active => 1
  | .cancelled => if κ.leftover then 1 else 0
  | _ => 0

theorem maxMessages_le (κ : Regime) (s : JobState) : maxMessages κ s ≤ 1 := by
  cases s <;> simp only [maxMessages] <;> first | decide | (split <;> decide)

theorem maxMessages_pos {κ : Regime} {s : JobState} (h : 0 < maxMessages κ s) :
    s = .available ∨ s = .active ∨ κ.leftover = true ∧ s = .cancelled := by
  cases s with
  | available => exact .inl rfl
  | active => exact .inr (.inl rfl)
  | cancelled =>
    rw [maxMessages] at h
    split at h
    · rename_i hl
      exact .inr (.inr ⟨hl, rfl⟩)
    · cases h
  | _ => cases h

namespace World

/-- The index has a marker for the job. -/
def marked (i : DueIndex) (id : String) (w : World) : Bool := ((w.store.due i).lookup id).isSome

/-- The job is in the dead letter set. -/
def dead (id : String) (w : World) : Bool := (w.store.deadLetters.lookup id).isSome

end World

/-- The handle is one of the job's own, and stays so: no later message gets
its identifier. -/
structure Owns (id : String) (h : Receipt) (q : SqsState) : Prop where
  old : h.message < q.nextMessage
  own : ∀ m ∈ q.messages, m.id = h.message → m.jobID = some id

theorem Owns.keeps {id : String} {h : Receipt} {q q' : SqsState} (ho : Owns id h q)
    (hk : q.Keeps q') : Owns id h q' := by
  refine ⟨lt_of_lt_of_le ho.old hk.next, fun m' hm' hid => ?_⟩
  obtain ⟨m, hm, hid', hjob⟩ := hk.old m' hm' (by rw [hid]; exact ho.old)
  rw [← hjob]
  exact ho.own m hm (hid'.trans hid)

/-- A message is about this record: in its queue, with its expiry. -/
structure About (cfg : Config) (r : JobRecord) (m : Message) : Prop where
  queueURL : m.queueURL = sqsQueueName cfg r.queue
  body : ∃ b, m.body = some b ∧ b.expiresAt = r.expiresAt

/-- The states in which a record stores no receipt handle. -/
def holdsNoHandle : JobState → Bool
  | .active | .completed | .discarded => false
  | _ => true

/-- The three places of a stored job agree. The deliveries `ds` have been
handed out to a fetch that has not come to them yet. -/
structure Fits (cfg : Config) (κ : Regime) (ds : List Delivery) (w : World) (id : String)
    (r : JobRecord) : Prop where
  id_eq : r.id = id
  about : ∀ m ∈ w.sqs.messagesOf id, About cfg r m
  messages : (w.sqs.messagesOf id).length ≤ maxMessages κ r.state
  present : κ.lossless = true → r.state = .available ∨ r.state = .active →
    w.sqs.messagesOf id ≠ []
  scheduled : w.marked .scheduled id = decide (r.state = .scheduled)
  retry : w.marked .retry id = decide (r.state = .retryable)
  dead : w.dead id = true → r.state = .discarded ∧ r.sqsReceiptHandle = none
  noHandle : holdsNoHandle r.state = true → r.sqsReceiptHandle = none
  active : r.state = .active → ∃ h, r.sqsReceiptHandle = some h ∧ Owns id h w.sqs ∧
    ∀ m ∈ w.sqs.messagesOf id, m.receipt = some h ∨ ∃ d ∈ ds, d.messageID = m.id

/-- A job that is not stored has left no trace. -/
structure Unknown (w : World) (id : String) : Prop where
  messages : w.sqs.messagesOf id = []
  marked : ∀ i, w.marked i id = false
  dead : w.dead id = false

/-- What does not belong to one job. -/
structure SoundWorld (cfg : Config) (w : World) : Prop where
  sqs : w.sqs.Sound
  urls : ∀ queue url, w.queueURLs.lookup queue = some url → url = sqsQueueName cfg queue
  workflows : w.store.workflows = ∅

structure Good (cfg : Config) (κ : Regime) (ds : List Delivery) (w : World) : Prop where
  sound : SoundWorld cfg w
  unknown : ∀ id, w.store.jobs.lookup id = none → Unknown w id
  fits : ∀ id r, w.store.jobs.lookup id = some r → Fits cfg κ ds w id r

/-! ## Frames -/

/-- The job's places are the same in `w'` as in `w`. -/
structure Untouched (id : String) (w w' : World) : Prop where
  job : w'.store.jobs.lookup id = w.store.jobs.lookup id
  marked : ∀ i, w'.marked i id = w.marked i id
  dead : w'.dead id = w.dead id
  messages : w'.sqs.messagesOf id = w.sqs.messagesOf id

theorem Untouched.refl (id : String) (w : World) : Untouched id w w :=
  ⟨rfl, fun _ => rfl, rfl, rfl⟩

theorem Untouched.trans {id : String} {w₁ w₂ w₃ : World} (h : Untouched id w₁ w₂)
    (h' : Untouched id w₂ w₃) : Untouched id w₁ w₃ :=
  ⟨h'.job.trans h.job, fun i => (h'.marked i).trans (h.marked i), h'.dead.trans h.dead,
    h'.messages.trans h.messages⟩

/-- From `w` to `w'` nothing but the job `id` has been touched. -/
structure Frame (id : String) (w w' : World) : Prop where
  others : ∀ i, i ≠ id → Untouched i w w'
  keeps : w.sqs.Keeps w'.sqs

theorem Frame.refl (id : String) (w : World) : Frame id w w :=
  ⟨fun i _ => .refl i w, .refl _⟩

theorem Frame.trans {id : String} {w₁ w₂ w₃ : World} (h : Frame id w₁ w₂) (h' : Frame id w₂ w₃) :
    Frame id w₁ w₃ :=
  ⟨fun i hi => (h.others i hi).trans (h'.others i hi), h.keeps.trans h'.keeps⟩

section
variable {cfg : Config} {κ : Regime} {ds : List Delivery} {id : String} {r : JobRecord}
  {w w' : World}

/-- A job whose places are untouched still fits. -/
theorem Fits.untouched (hf : Fits cfg κ ds w id r) (hu : Untouched id w w')
    (hk : w.sqs.Keeps w'.sqs) : Fits cfg κ ds w' id r := by
  refine ⟨hf.id_eq, ?_, ?_, ?_, ?_, ?_, ?_, hf.noHandle, ?_⟩
  · rw [hu.messages]; exact hf.about
  · rw [hu.messages]; exact hf.messages
  · rw [hu.messages]; exact hf.present
  · rw [hu.marked]; exact hf.scheduled
  · rw [hu.marked]; exact hf.retry
  · rw [hu.dead]; exact hf.dead
  · intro hs
    obtain ⟨h, hh, ho, hall⟩ := hf.active hs
    refine ⟨h, hh, ho.keeps hk, ?_⟩
    rw [hu.messages]
    exact hall

theorem Unknown.untouched (h : Unknown w id) (hu : Untouched id w w') : Unknown w' id :=
  ⟨hu.messages.trans h.messages, fun i => (hu.marked i).trans (h.marked i),
    hu.dead.trans h.dead⟩

/-- **One job at a time.** When only the job `id` was touched, and it fits
again, all is good again. The deliveries that are pending may have changed, as
long as this is nothing to the other jobs. -/
theorem Good.touchTo {ds' : List Delivery} (hg : Good cfg κ ds w) (hfr : Frame id w w')
    (hs : SoundWorld cfg w') (hr : w'.store.jobs.lookup id = some r) (hf : Fits cfg κ ds' w' id r)
    (hother : ∀ i r, i ≠ id → Fits cfg κ ds w i r → Fits cfg κ ds' w i r) :
    Good cfg κ ds' w' := by
  refine ⟨hs, fun i hi => ?_, fun i r' hi => ?_⟩
  · have hne : i ≠ id := fun h => by rw [h, hr] at hi; cases hi
    have hu := hfr.others i hne
    exact (hg.unknown i (hu.job ▸ hi)).untouched hu
  · by_cases h : i = id
    · rw [h, hr] at hi
      cases hi
      rw [h]
      exact hf
    · have hu := hfr.others i h
      exact (hother i r' h (hg.fits i r' (hu.job ▸ hi))).untouched hu hfr.keeps

theorem Good.touch (hg : Good cfg κ ds w) (hfr : Frame id w w') (hs : SoundWorld cfg w')
    (hr : w'.store.jobs.lookup id = some r) (hf : Fits cfg κ ds w' id r) : Good cfg κ ds w' :=
  hg.touchTo hfr hs hr hf fun _ _ _ h => h

/-- No job was touched. -/
theorem Good.untouched (hg : Good cfg κ ds w) (hs : SoundWorld cfg w')
    (hu : ∀ i, Untouched i w w') (hk : w.sqs.Keeps w'.sqs) : Good cfg κ ds w' :=
  ⟨hs, fun i hi => (hg.unknown i ((hu i).job ▸ hi)).untouched (hu i),
    fun i r hi => (hg.fits i r ((hu i).job ▸ hi)).untouched (hu i) hk⟩

end

/-! ## Updates and one job's places -/

namespace World
variable (cfg : Config) (w : World)

@[simp] theorem openQueue_messages (queue : String) :
    (w.openQueue cfg queue).sqs.messages = w.sqs.messages := by
  rw [openQueue]
  split
  · rfl
  · exact SqsState.createQueue_messages _

@[simp] theorem openQueue_messagesOf (queue id : String) :
    (w.openQueue cfg queue).sqs.messagesOf id = w.sqs.messagesOf id := by
  rw [SqsState.messagesOf, openQueue_messages, SqsState.messagesOf]

@[simp] theorem dropMessage_store (r : JobRecord) : (w.dropMessage cfg r).store = w.store := by
  rw [dropMessage]
  split
  · rfl
  · exact openQueue_store cfg w r.queue

@[simp] theorem dropMessage_clock (r : JobRecord) : (w.dropMessage cfg r).clock = w.clock := by
  rw [dropMessage]
  split
  · rfl
  · exact openQueue_clock cfg w r.queue

@[simp] theorem releaseMessage_store (r : JobRecord) :
    (w.releaseMessage cfg r).store = w.store := by
  rw [releaseMessage]
  split
  · rfl
  · exact openQueue_store cfg w r.queue

@[simp] theorem releaseMessage_clock (r : JobRecord) :
    (w.releaseMessage cfg r).clock = w.clock := by
  rw [releaseMessage]
  split
  · rfl
  · exact openQueue_clock cfg w r.queue

@[simp] theorem sendJob_store (job : Job) : (w.sendJob cfg job).store = w.store := by
  rw [sendJob]
  split <;> exact openQueue_store cfg w job.queue

@[simp] theorem sendJob_clock (job : Job) : (w.sendJob cfg job).clock = w.clock := by
  rw [sendJob]
  split <;> exact openQueue_clock cfg w job.queue

@[simp] theorem registerQueue_jobs (name : String) :
    (w.registerQueue name).store.jobs = w.store.jobs := by
  rw [registerQueue]
  split <;> rfl

@[simp] theorem registerQueue_sqs (name : String) : (w.registerQueue name).sqs = w.sqs := by
  rw [registerQueue]
  split <;> rfl

@[simp] theorem registerQueue_clock (name : String) :
    (w.registerQueue name).clock = w.clock := by
  rw [registerQueue]
  split <;> rfl

@[simp] theorem registerQueue_marked (name : String) (x : DueIndex) (id : String) :
    (w.registerQueue name).marked x id = w.marked x id := by
  rw [registerQueue]
  split <;> rfl

@[simp] theorem registerQueue_dead (name id : String) :
    (w.registerQueue name).dead id = w.dead id := by
  rw [registerQueue]
  split <;> rfl

variable {w}

@[simp] theorem setJob_lookup (id : String) (r : JobRecord) :
    (w.setJob id r).store.jobs.lookup id = some r := AList.lookup_insert _

theorem setJob_lookup_ne {id i : String} (r : JobRecord) (h : i ≠ id) :
    (w.setJob id r).store.jobs.lookup i = w.store.jobs.lookup i := AList.lookup_insert_ne h

theorem addDue_marked (x : DueIndex) (id : String) (at' : Int) (y : DueIndex) (i : String) :
    (w.addDue x id at').marked y i = if y = x ∧ i = id then true else w.marked y i := by
  by_cases hy : y = x
  · by_cases hi : i = id
    · subst hy hi
      simp [marked, addDue, Store.setDue, AList.lookup_insert]
    · subst hy
      simp [marked, addDue, Store.setDue, hi, AList.lookup_insert_ne]
  · simp [marked, addDue, Store.setDue, hy]

theorem removeDue_marked (x : DueIndex) (id : String) (y : DueIndex) (i : String) :
    (w.removeDue x id).marked y i = if y = x ∧ i = id then false else w.marked y i := by
  by_cases hy : y = x
  · by_cases hi : i = id
    · subst hy hi
      simp [marked, removeDue, Store.setDue, AList.lookup_erase]
    · subst hy
      simp [marked, removeDue, Store.setDue, hi, AList.lookup_erase_ne]
  · simp [marked, removeDue, Store.setDue, hy]

theorem addDead_dead (id i : String) :
    (w.addDead id).dead i = if i = id then true else w.dead i := by
  by_cases hi : i = id
  · subst hi
    simp [dead, addDead, AList.lookup_insert]
  · simp [dead, addDead, hi, AList.lookup_insert_ne]

theorem removeDead_dead (id i : String) :
    (w.removeDead id).dead i = if i = id then false else w.dead i := by
  by_cases hi : i = id
  · subst hi
    simp [dead, removeDead, AList.lookup_erase]
  · simp [dead, removeDead, hi, AList.lookup_erase_ne]

end World

/-! ## One job's updates -/

/-- The job `id` was touched and what belongs to no job is still sound. -/
structure Touch (cfg : Config) (id : String) (w w' : World) : Prop where
  sound : SoundWorld cfg w'
  frame : Frame id w w'

section
variable {cfg : Config} {id : String} {w w' : World}

theorem Touch.trans {w'' : World} (h : Touch cfg id w w') (h' : Touch cfg id w' w'') :
    Touch cfg id w w'' := ⟨h'.sound, h.frame.trans h'.frame⟩

/-- An update of a table that is no job's place. -/
theorem Touch.store (hs : SoundWorld cfg w) {s : Store} (hj : s.jobs = w.store.jobs)
    (hd : s.due = w.store.due) (hl : s.deadLetters = w.store.deadLetters)
    (hw : s.workflows = w.store.workflows) : Touch cfg id w (w.setStore s) :=
  ⟨⟨hs.sqs, hs.urls, hw.trans hs.workflows⟩,
    fun i _ => ⟨by rw [World.setStore, hj], fun x => by rw [World.marked, World.setStore, hd]; rfl,
      by rw [World.dead, World.setStore, hl]; rfl, rfl⟩, .refl _⟩

variable (id) in
theorem touch_clock (hs : SoundWorld cfg w) (t : Time) : Touch cfg id w (w.setClock t) :=
  ⟨⟨hs.sqs, hs.urls, hs.workflows⟩, fun _ _ => ⟨rfl, fun _ => rfl, rfl, rfl⟩, .refl _⟩

variable (id) in
theorem touch_setJob (hs : SoundWorld cfg w) (r : JobRecord) : Touch cfg id w (w.setJob id r) :=
  ⟨⟨hs.sqs, hs.urls, hs.workflows⟩,
    fun _ hi => ⟨World.setJob_lookup_ne r hi, fun _ => rfl, rfl, rfl⟩, .refl _⟩

variable (id) in
theorem touch_registerQueue (hs : SoundWorld cfg w) (name : String) :
    Touch cfg id w (w.registerQueue name) := by
  rw [World.registerQueue]
  split
  · exact ⟨hs, .refl id w⟩
  · exact .store hs rfl rfl rfl rfl

variable (id) in
theorem touch_addCompleted (hs : SoundWorld cfg w) (name : String) :
    Touch cfg id w (w.addCompleted name) := .store hs rfl rfl rfl rfl

variable (id) in
theorem touch_addDue (hs : SoundWorld cfg w) (x : DueIndex) (at' : Int) :
    Touch cfg id w (w.addDue x id at') :=
  ⟨⟨hs.sqs, hs.urls, hs.workflows⟩,
    fun i hi => ⟨rfl, fun y => by rw [World.addDue_marked, if_neg (fun h => hi h.2)], rfl, rfl⟩,
    .refl _⟩

variable (id) in
theorem touch_removeDue (hs : SoundWorld cfg w) (x : DueIndex) :
    Touch cfg id w (w.removeDue x id) :=
  ⟨⟨hs.sqs, hs.urls, hs.workflows⟩,
    fun i hi => ⟨rfl, fun y => by rw [World.removeDue_marked, if_neg (fun h => hi h.2)], rfl, rfl⟩,
    .refl _⟩

variable (id) in
theorem touch_addDead (hs : SoundWorld cfg w) : Touch cfg id w (w.addDead id) :=
  ⟨⟨hs.sqs, hs.urls, hs.workflows⟩,
    fun i hi => ⟨rfl, fun _ => rfl, by rw [World.addDead_dead, if_neg hi], rfl⟩, .refl _⟩

variable (id) in
theorem touch_removeDead (hs : SoundWorld cfg w) : Touch cfg id w (w.removeDead id) :=
  ⟨⟨hs.sqs, hs.urls, hs.workflows⟩,
    fun i hi => ⟨rfl, fun _ => rfl, by rw [World.removeDead_dead, if_neg hi], rfl⟩, .refl _⟩

theorem touch_openQueue (hs : SoundWorld cfg w) (queue : String) :
    Touch cfg id w (w.openQueue cfg queue) := by
  have hm := w.openQueue_messagesOf cfg queue
  have hst := w.openQueue_store cfg queue
  refine ⟨⟨?_, ?_, ?_⟩, fun i _ => ⟨?_, fun _ => ?_, ?_, hm i⟩, ?_⟩
  · rw [World.openQueue]
    split
    · exact hs.sqs
    · exact SqsState.sound_createQueue _ hs.sqs
  · intro q url hu
    rw [World.openQueue] at hu
    split at hu
    · exact hs.urls q url hu
    · by_cases hq : q = queue
      · subst hq
        rw [AList.lookup_insert] at hu
        exact (Option.some.inj hu).symm
      · rw [AList.lookup_insert_ne hq] at hu
        exact hs.urls q url hu
  · rw [hst]; exact hs.workflows
  · rw [hst]
  · rw [World.marked, hst, World.marked]
  · rw [World.dead, hst, World.dead]
  · rw [World.openQueue]
    split
    · exact .refl _
    · exact SqsState.keeps_createQueue _

/-- Opening a queue touches no job. -/
theorem Good.openQueue {κ : Regime} {ds : List Delivery} (hg : Good cfg κ ds w)
    (queue : String) : Good cfg κ ds (w.openQueue cfg queue) := by
  have ht : Touch cfg "" w (w.openQueue cfg queue) := touch_openQueue hg.sound queue
  have hst := w.openQueue_store cfg queue
  refine hg.untouched ht.sound (fun i => ⟨by rw [hst], fun x => ?_, ?_, ?_⟩) ht.frame.keeps
  · rw [World.marked, hst, World.marked]
  · rw [World.dead, hst, World.dead]
  · exact w.openQueue_messagesOf cfg queue i

/-- The URL of a queue is always the one its name gives. -/
theorem SoundWorld.urlOf (hs : SoundWorld cfg w) (queue : String) :
    w.urlOf cfg queue = sqsQueueName cfg queue := by
  rw [World.urlOf]
  cases h : w.queueURLs.lookup queue with
  | none => rfl
  | some url => exact hs.urls queue url h

/-- An update of the messages that touches one job. -/
theorem touch_setSqs (hs : SoundWorld cfg w) {q : SqsState} (hq : q.Sound) (hk : w.sqs.Keeps q)
    (hm : ∀ i, i ≠ id → q.messagesOf i = w.sqs.messagesOf i) : Touch cfg id w (w.setSqs q) :=
  ⟨⟨hq, hs.urls, hs.workflows⟩, fun i hi => ⟨rfl, fun _ => rfl, rfl, hm i hi⟩, hk⟩

/-- A handle a job owns is on no other job's message. -/
theorem Owns.elsewhere {h : Receipt} {q : SqsState} (ho : Owns id h q) (hq : q.Sound) {i : String}
    (hi : i ≠ id) {m : Message} (hm : m ∈ q.messagesOf i) : m.receipt ≠ some h := by
  intro hr
  obtain ⟨hmem, hjob⟩ := SqsState.mem_messagesOf.mp hm
  have hown := ho.own m hmem (hq.receipts m hmem h hr).symm
  rw [hjob] at hown
  exact hi (Option.some.inj hown)

theorem touch_delete (hs : SoundWorld cfg w) {h : Receipt} (ho : Owns id h w.sqs) (url : String) :
    Touch cfg id w (w.setSqs (w.sqs.delete url h)) := by
  refine touch_setSqs hs (hs.sqs.filter _) (SqsState.keeps_filter _) fun i hi => ?_
  rw [SqsState.delete_eq, SqsState.messagesOf_filter, List.filter_eq_self]
  intro m hm
  simp [ho.elsewhere hs.sqs hi hm]

theorem touch_changeVisibility (hs : SoundWorld cfg w) {h : Receipt} (ho : Owns id h w.sqs)
    (url : String) (vis : Int) :
    Touch cfg id w (w.setSqs (w.sqs.changeVisibility url h vis)) := by
  have hf := SqsState.same_showMessage url h vis
  refine touch_setSqs hs (hs.sqs.map hf) (SqsState.keeps_map hf) fun i hi => ?_
  rw [SqsState.changeVisibility_eq, SqsState.messagesOf_map hf]
  refine (List.map_congr_left fun m hm => ?_).trans (List.map_id _)
  rw [SqsState.showMessage, if_neg (fun hc => ho.elsewhere hs.sqs hi hm hc.2)]
  rfl

theorem touch_send (hs : SoundWorld cfg w) {m : OutMessage} (hid : m.body.id = id) (url : String) :
    Touch cfg id w (w.setSqs (w.sqs.send url m)) := by
  refine touch_setSqs hs (SqsState.sound_send url m hs.sqs) (SqsState.keeps_send url m)
    fun i hi => ?_
  rw [SqsState.send_messagesOf, if_neg (by rw [hid]; exact Ne.symm hi), List.append_nil]

/-! ## The helpers that talk to SQS -/

/-- Dropping the message of a handle the job owns touches the job only. -/
theorem touch_dropMessage (hs : SoundWorld cfg w) {r : JobRecord}
    (ho : ∀ h, r.sqsReceiptHandle = some h → Owns id h w.sqs) :
    Touch cfg id w (w.dropMessage cfg r) := by
  rw [World.dropMessage]
  cases hh : r.sqsReceiptHandle with
  | none => exact ⟨hs, .refl id w⟩
  | some h =>
    have hopen : Touch cfg id w (w.openQueue cfg r.queue) := touch_openQueue hs r.queue
    exact hopen.trans (touch_delete hopen.sound ((ho h hh).keeps hopen.frame.keeps) _)

/-- A message that carries the handle is deleted. -/
theorem dropMessage_messagesOf (hs : SoundWorld cfg w) {r : JobRecord} {h : Receipt}
    (hh : r.sqsReceiptHandle = some h)
    (hm : ∀ m ∈ w.sqs.messagesOf id, m.queueURL = sqsQueueName cfg r.queue ∧ m.receipt = some h) :
    (w.dropMessage cfg r).sqs.messagesOf id = [] := by
  rw [World.dropMessage, hh]
  simp only [World.setSqs, SqsState.delete_eq, SqsState.messagesOf_filter, hs.urlOf,
    World.openQueue_messagesOf, List.filter_eq_nil_iff]
  intro m hmem
  obtain ⟨hu, hr⟩ := hm m hmem
  simp [hu, hr]

theorem touch_releaseMessage (hs : SoundWorld cfg w) {r : JobRecord}
    (ho : ∀ h, r.sqsReceiptHandle = some h → Owns id h w.sqs) :
    Touch cfg id w (w.releaseMessage cfg r) := by
  rw [World.releaseMessage]
  cases hh : r.sqsReceiptHandle with
  | none => exact ⟨hs, .refl id w⟩
  | some h =>
    have hopen : Touch cfg id w (w.openQueue cfg r.queue) := touch_openQueue hs r.queue
    exact hopen.trans (touch_changeVisibility hopen.sound ((ho h hh).keeps hopen.frame.keeps) _ _)

variable (cfg id) in
/-- Releasing a message changes only its visibility. -/
theorem releaseMessage_messagesOf (w : World) (r : JobRecord) :
    ∃ f : Message → Message, (∀ m, SqsState.SameMessage m (f m)) ∧
      (w.releaseMessage cfg r).sqs.messagesOf id = (w.sqs.messagesOf id).map f := by
  rw [World.releaseMessage]
  cases hh : r.sqsReceiptHandle with
  | none => exact ⟨fun m => m, .refl, (List.map_id _).symm⟩
  | some h =>
    have hf := SqsState.same_showMessage (w.urlOf cfg r.queue) h 0
    refine ⟨_, hf, ?_⟩
    simp only [World.setSqs, SqsState.changeVisibility_eq, SqsState.messagesOf_map hf,
      World.openQueue_messagesOf]

theorem touch_sendJob (hs : SoundWorld cfg w) {job : Job} (hid : job.id = id) :
    Touch cfg id w (w.sendJob cfg job) := by
  have hopen : Touch cfg id w (w.openQueue cfg job.queue) := touch_openQueue hs job.queue
  rw [World.sendJob]
  cases he : encodeJob cfg job with
  | error e => exact hopen
  | ok body =>
    refine hopen.trans (touch_send hopen.sound ?_ _)
    rw [outMessage, encodeJob_body he]
    exact hid

/-- A job that fits into a message gets one more, any other none. -/
theorem sendJob_messagesOf (hs : SoundWorld cfg w) {job : Job} (hid : job.id = id) :
    (w.sendJob cfg job).sqs.messagesOf id = w.sqs.messagesOf id ++
      if encodes cfg job then
        [⟨w.sqs.nextMessage, sqsQueueName cfg job.queue, some job,
          (outMessage cfg job job).groupID, (outMessage cfg job job).deduplicationID, true, 0,
          none⟩]
      else [] := by
  rw [World.sendJob, encodes]
  cases he : encodeJob cfg job with
  | error e => simp [Except.toOption]
  | ok body =>
    rw [encodeJob_body he]
    simp only [World.setSqs, SqsState.send_messagesOf, World.openQueue_messagesOf, hs.urlOf,
      Except.toOption, Option.isSome_some, if_true]
    rw [if_pos (by rw [outMessage]; exact hid), SqsState.sent, World.openQueue_nextMessage]
    rfl

theorem About.same {r : JobRecord} {m m' : Message} (h : About cfg r m)
    (hm : SqsState.SameMessage m m') : About cfg r m' :=
  ⟨hm.queueURL.trans h.queueURL, by rw [hm.body]; exact h.body⟩

end

end OjsSqs
