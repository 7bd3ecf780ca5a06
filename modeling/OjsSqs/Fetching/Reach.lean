import OjsSqs.Lifecycle.Invariant
import OjsSqs.Racing.Promoters

/-! # What a Fetch does not find

A Fetch reads the queues of its list that are not paused. A job that has no
message in any of them is spared: its record, markers and messages stay as
they are, and it is not among the jobs the Fetch returns. -/
namespace OjsSqs
open Calls

/-- The item of the queue says it is paused. -/
def World.paused (queue : String) (w : World) : Bool := (w.store.queueItem queue).paused

/-- No message of the job is in a queue the Fetch reads. -/
def OutOfReach (cfg : Config) (queues : List String) (id : String) (w : World) : Prop :=
  ∀ queue ∈ queues, w.paused queue = false →
    ∀ m ∈ w.sqs.messagesOf id, m.queueURL ≠ w.urlOf cfg queue

/-- The job's places are as they were, and so is what a Fetch reads. -/
structure PassedOver (cfg : Config) (id : String) (w w' : World) : Prop where
  job : w'.store.jobs.lookup id = w.store.jobs.lookup id
  due : ∀ i, (w'.store.due i).lookup id = (w.store.due i).lookup id
  dead : w'.dead id = w.dead id
  messages : w'.sqs.messagesOf id = w.sqs.messagesOf id
  queues : w'.store.queues = w.store.queues
  urls : ∀ queue, w'.urlOf cfg queue = w.urlOf cfg queue

/-- What a Fetch relies on: messages have identifiers of their own, and records
are stored under theirs. -/
structure Tidy (w : World) : Prop where
  sqs : w.sqs.Sound
  named : w.NamedJobs

section
variable {cfg : Config} {id : String} {w w' w'' : World} {url queue : String}

theorem PassedOver.refl (id : String) (w : World) : PassedOver cfg id w w :=
  ⟨rfl, fun _ => rfl, rfl, rfl, rfl, fun _ => rfl⟩

theorem PassedOver.trans (h : PassedOver cfg id w w') (h' : PassedOver cfg id w' w'') : PassedOver cfg id w w'' :=
  ⟨h'.job.trans h.job, fun i => (h'.due i).trans (h.due i), h'.dead.trans h.dead,
    h'.messages.trans h.messages, h'.queues.trans h.queues,
    fun queue => (h'.urls queue).trans (h.urls queue)⟩

theorem PassedOver.paused (h : PassedOver cfg id w w') (queue : String) :
    w'.paused queue = w.paused queue := by
  rw [World.paused, Store.queueItem, h.queues, World.paused, Store.queueItem]

theorem OutOfReach.passedOver {queues : List String} (h : OutOfReach cfg queues id w)
    (hs : PassedOver cfg id w w') : OutOfReach cfg queues id w' := by
  intro queue hq hp m hm
  rw [hs.paused] at hp
  rw [hs.messages] at hm
  rw [hs.urls]
  exact h queue hq hp m hm

theorem passedOver_setClock (t : Time) : PassedOver cfg id w (w.setClock t) :=
  ⟨rfl, fun _ => rfl, rfl, rfl, rfl, fun _ => rfl⟩

theorem passedOver_setJob {i : String} (hi : i ≠ id) (r : JobRecord) :
    PassedOver cfg id w (w.setJob i r) :=
  ⟨World.setJob_lookup_ne r hi.symm, fun _ => rfl, rfl, rfl, rfl, fun _ => rfl⟩

theorem passedOver_openQueue (queue : String) : PassedOver cfg id w (w.openQueue cfg queue) := by
  have hst := w.openQueue_store cfg queue
  refine ⟨?_, fun i => ?_, ?_, w.openQueue_messagesOf cfg queue id, ?_,
    w.openQueue_urlOf cfg queue⟩
  · rw [hst]
  · rw [hst]
  · rw [World.dead, hst, World.dead]
  · rw [hst]

theorem Good.tidy {κ : Regime} {ds : List Delivery} (hg : Good cfg κ ds w) : Tidy w :=
  ⟨hg.sound.sqs, fun i r hr => (hg.fits i r hr).id_eq⟩

theorem Tidy.setClock (h : Tidy w) (t : Time) : Tidy (w.setClock t) := ⟨h.sqs, h.named⟩

theorem Tidy.setJob (h : Tidy w) {r : JobRecord} (hr : r.id = id) : Tidy (w.setJob id r) := by
  refine ⟨h.sqs, fun i x hx => ?_⟩
  by_cases hi : i = id
  · subst hi
    rw [World.setJob_lookup] at hx
    cases hx
    exact hr
  · rw [World.setJob_lookup_ne r hi] at hx
    exact h.named i x hx

theorem Tidy.openQueue (h : Tidy w) (queue : String) : Tidy (w.openQueue cfg queue) := by
  refine ⟨?_, fun i x hx => h.named i x (by rwa [w.openQueue_store cfg queue] at hx)⟩
  rw [World.openQueue]
  split
  · exact h.sqs
  · exact SqsState.sound_createQueue _ h.sqs

/-! ## The receive -/

/-- A receive leaves the messages it does not pick. -/
theorem receive_unpicked {q : SqsState} (vis : Int) {ids : List MessageId}
    (h : ∀ m ∈ q.messagesOf id, m.id ∉ ids) :
    (SqsState.receive vis ids q).2.messagesOf id = q.messagesOf id := by
  induction ids generalizing q with
  | nil => rfl
  | cons i ids ih =>
    have hne : ∀ m ∈ q.messagesOf id, m.id ≠ i := fun m hm he => h m hm (he ▸ List.mem_cons_self)
    have hrest : ∀ m ∈ q.messagesOf id, m.id ∉ ids := fun m hm hi =>
      h m hm (List.mem_cons_of_mem i hi)
    rw [SqsState.receive]
    cases hf : q.find i with
    | none => exact ih hrest
    | some m₁ =>
      have hm₁ := (SqsState.mem_of_find hf).2
      simp only
      split
      · have hkeep : (q.redrive m₁).messagesOf id = q.messagesOf id := by
          have hfilter := SqsState.messagesOf_filter (fun m' => m'.id ≠ m₁.id) (q := q) id
          rw [SqsState.messagesOf, ← SqsState.redrive_messages, ← SqsState.messagesOf] at hfilter
          rw [hfilter, List.filter_eq_self]
          intro m hm
          rw [hm₁]
          exact decide_eq_true (hne m hm)
        rw [ih (hkeep.symm ▸ hrest), hkeep]
      · have hkeep : (q.deliver i vis).messagesOf id = q.messagesOf id := by
          rw [SqsState.deliver_eq, SqsState.messagesOf_map (SqsState.same_deliverMessage i vis)]
          refine (List.map_congr_left fun m hm => ?_).trans (List.map_id _)
          rw [SqsState.deliverMessage, if_neg (hne m hm)]
          rfl
        rw [ih (hkeep.symm ▸ hrest), hkeep]

/-- A receive from a queue without messages of the job. -/
theorem Tidy.receive (h : Tidy w) {max : Nat} (vis : Int) {ids : List MessageId}
    (hp : w.sqs.mayPick url max ids = true) (hout : ∀ m ∈ w.sqs.messagesOf id, m.queueURL ≠ url) :
    Tidy (w.setSqs (w.sqs.receive vis ids).2) ∧
      PassedOver cfg id w (w.setSqs (w.sqs.receive vis ids).2) ∧
      ∀ d ∈ (w.sqs.receive vis ids).1, ∀ job, d.body = some job → job.id ≠ id := by
  obtain ⟨-, hnodup, hall⟩ := SqsState.picked_of_mayPick hp
  have hspec := SqsState.receive_spec vis hnodup h.sqs
  -- a picked message is in the queue, so it is none of the job's
  have hpicked : ∀ m ∈ w.sqs.messagesOf id, m.id ∉ ids := by
    intro m hm hi
    obtain ⟨m₀, hm₀, hid, hurl, -⟩ := hall m.id hi
    rw [h.sqs.unique hm₀ (SqsState.mem_messagesOf.mp hm).1 hid] at hurl
    exact hout m hm hurl
  refine ⟨⟨hspec.sound, h.named⟩, ⟨rfl, fun _ => rfl, rfl, receive_unpicked vis hpicked, rfl,
    fun _ => rfl⟩, fun d hd job hb hid => ?_⟩
  obtain ⟨m', hm', hid', hbody, -⟩ := hspec.deliveries d hd
  obtain ⟨m, hm, hsame, hbody', -⟩ := hspec.messages m' hm'
  have hmem : m ∈ w.sqs.messagesOf id := by
    refine SqsState.mem_messagesOf.mpr ⟨hm, ?_⟩
    rw [Message.jobID, ← hbody', hbody, hb, ← hid]
    rfl
  refine hpicked m hmem ?_
  rw [← hsame, hid']
  exact hspec.picked.subset (List.mem_map_of_mem hd)

/-! ## The loops -/

variable {ρ : Rules} (hρ : ρ.faults = false) {now : Time} {worker : String} {count : Int}
include hρ

/-- One delivery of another job. -/
theorem fetchMessage_spares (h : Tidy w) (hout : ∀ m ∈ w.sqs.messagesOf id, m.queueURL ≠ url)
    {d : Delivery} (hd : ∀ job, d.body = some job → job.id ≠ id) :
    wp ρ.env.every (fetchMessage cfg now worker url d) (fun a w' =>
      (Tidy w' ∧ PassedOver cfg id w w') ∧ ∀ job, a = some job → job.id ≠ id) w := by
  rw [fetchMessage]
  cases hb : d.body with
  | none => exact ⟨⟨h, .refl id w⟩, fun _ hj => by cases hj⟩
  | some job =>
    have hne := hd job hb
    simp only [wp_ite]
    have hdelete : ∀ w', Tidy w' → PassedOver cfg id w w' →
        (Tidy (w'.setSqs (w'.sqs.delete url d.receiptHandle)) ∧
          PassedOver cfg id w (w'.setSqs (w'.sqs.delete url d.receiptHandle))) := by
      intro w' h' hs
      refine ⟨⟨h'.sqs.filter _, h'.named⟩, hs.trans ⟨rfl, fun _ => rfl, rfl, ?_, rfl, fun _ => rfl⟩⟩
      rw [World.setSqs, SqsState.delete_eq, SqsState.messagesOf_filter, List.filter_eq_self]
      intro m hm
      rw [hs.messages] at hm
      simp [hout m hm]
    cases hr : w.store.jobs.lookup job.id with
    | none =>
      split
      · rw [wp_bind, wp_updateJobState_none hρ hr, wp_bind, wp_sqs hρ rfl]
        exact ⟨hdelete w h (.refl id w), fun _ hj => by cases hj⟩
      · rw [wp_bind, wp_updateJobState_none hρ hr]
        exact ⟨⟨h, .refl id w⟩, fun _ hj => by cases hj⟩
    | some r =>
      have hid : r.id = job.id := h.named job.id r hr
      have hmoved := fun s us => (JobRecord.moved_id r s us).trans hid
      split
      · rw [wp_bind, wp_updateJobState_some hρ hr, wp_bind, wp_sqs hρ rfl]
        exact ⟨hdelete _ (h.setJob (hmoved _ _)) (passedOver_setJob hne _), fun _ hj => by cases hj⟩
      · rw [wp_bind, wp_updateJobState_some hρ hr]
        simp only
        rw [wp_bind, wp_getJob_some hρ (World.setJob_lookup _ _)]
        refine ⟨⟨h.setJob (hmoved _ _), passedOver_setJob hne _⟩, fun j hj => ?_⟩
        cases hj
        exact fun he => hne ((hmoved .active (activeUpdates cfg now worker d)).symm.trans he)

theorem fetchMessages_spares (h : Tidy w) (hout : ∀ m ∈ w.sqs.messagesOf id, m.queueURL ≠ url)
    {ds : List Delivery} (hds : ∀ d ∈ ds, ∀ job, d.body = some job → job.id ≠ id)
    {jobs : List Job} (hjobs : ∀ job ∈ jobs, job.id ≠ id) :
    wp ρ.env.every (fetchMessages cfg now worker url count ds jobs) (fun a w' =>
      (Tidy w' ∧ PassedOver cfg id w w') ∧ ∀ job ∈ a, job.id ≠ id) w := by
  induction ds generalizing w jobs with
  | nil => exact ⟨⟨h, .refl id w⟩, hjobs⟩
  | cons d ds ih =>
    rw [fetchMessages, wp_ite]
    split
    · exact ⟨⟨h, .refl id w⟩, hjobs⟩
    · rw [wp_bind]
      refine wp_mono (Env.every_mono _) _ (fetchMessage_spares hρ h hout
        (hds d List.mem_cons_self)) ?_
      rintro a w₁ ⟨⟨h₁, hs₁⟩, ha⟩
      have hout₁ : ∀ m ∈ w₁.sqs.messagesOf id, m.queueURL ≠ url := by
        rw [hs₁.messages]
        exact hout
      have hds₁ := fun d' hd' => hds d' (List.mem_cons_of_mem d hd')
      have hend : ∀ jobs', (∀ job ∈ jobs', job.id ≠ id) →
          wp ρ.env.every (fetchMessages cfg now worker url count ds jobs') (fun a w' =>
            (Tidy w' ∧ PassedOver cfg id w w') ∧ ∀ job ∈ a, job.id ≠ id) w₁ := fun jobs' hjobs' =>
        wp_mono (Env.every_mono _) _ (ih h₁ hout₁ hds₁ hjobs')
          fun _ _ hx => ⟨⟨hx.1.1, hs₁.trans hx.1.2⟩, hx.2⟩
      cases a with
      | none => exact hend jobs hjobs
      | some job =>
        refine hend _ fun j hj => ?_
        rcases List.mem_append.mp hj with hj | hj
        · exact hjobs j hj
        · rw [List.mem_singleton.mp hj]
          exact ha job rfl

theorem fetchQueue_spares (h : Tidy w) (hout : ∀ m ∈ w.sqs.messagesOf id, m.queueURL ≠ url)
    {visSec : Int} (n : Nat) {jobs : List Job} (hjobs : ∀ job ∈ jobs, job.id ≠ id) :
    wp ρ.env.every (fetchQueue cfg now worker url count visSec n jobs) (fun a w' =>
      (Tidy w' ∧ PassedOver cfg id w w') ∧ ∀ l, a = some l → ∀ job ∈ l, job.id ≠ id) w := by
  have hdone : (Tidy w ∧ PassedOver cfg id w w) ∧ ∀ l, some jobs = some l → ∀ job ∈ l, job.id ≠ id :=
    ⟨⟨h, .refl id w⟩, fun l hl => Option.some.inj hl ▸ hjobs⟩
  induction n generalizing w jobs with
  | zero =>
    rw [fetchQueue]
    split
    · exact ⟨⟨h, .refl id w⟩, fun _ hj => by cases hj⟩
    · exact hdone
  | succ n ih =>
    rw [fetchQueue, wp_ite]
    split
    · rw [wp_bind]
      refine wp_receive hρ fun ids hp _ => ?_
      obtain ⟨h₁, hs₁, hds⟩ : Tidy (w.setSqs (w.sqs.receive visSec ids).2) ∧
          PassedOver cfg id w (w.setSqs (w.sqs.receive visSec ids).2) ∧ _ :=
        h.receive visSec hp hout
      generalize (w.sqs.receive visSec ids).1 = out at hds
      have hout₁ : ∀ m ∈ (w.setSqs (w.sqs.receive visSec ids).2).sqs.messagesOf id,
          m.queueURL ≠ url := by
        rw [hs₁.messages]
        exact hout
      cases out with
      | nil => exact ⟨⟨h₁, hs₁⟩, hdone.2⟩
      | cons d ds =>
        simp only
        rw [wp_bind]
        refine wp_mono (Env.every_mono _) _ (fetchMessages_spares hρ h₁ hout₁ hds hjobs) ?_
        rintro jobs₂ w₂ ⟨⟨h₂, hs₂⟩, hjobs₂⟩
        have hout₂ : ∀ m ∈ w₂.sqs.messagesOf id, m.queueURL ≠ url := by
          rw [hs₂.messages]
          exact hout₁
        refine wp_mono (Env.every_mono _) _ (ih h₂ hout₂ hjobs₂
          ⟨⟨h₂, .refl id w₂⟩, fun l hl => Option.some.inj hl ▸ hjobs₂⟩)
          fun _ _ hx => ⟨⟨hx.1.1, (hs₁.trans hs₂).trans hx.1.2⟩, hx.2⟩
    · exact hdone

/-- The flag the loop reads is the one of the item; a queue without one is
read. -/
theorem wp_isQueuePaused_eq (Q : Bool → World → Prop) :
    wp ρ.env.every (isQueuePaused queue) (fun a w' => Q (a.toOption.getD false) w') w =
      Q (w.paused queue) w := by
  rw [isQueuePaused, wp_bind, wp_dynamo hρ rfl, World.paused, Store.queueItem]
  simp only [Store.run]
  cases w.store.queues.lookup queue <;> rfl

theorem fetchQueues_spares (h : Tidy w) {queues : List String}
    (hout : OutOfReach cfg queues id w) {visSec : Int} (n : Nat) {jobs : List Job}
    (hjobs : ∀ job ∈ jobs, job.id ≠ id) :
    wp ρ.env.every (fetchQueues cfg n now worker count visSec queues jobs) (fun a w' =>
      (Tidy w' ∧ PassedOver cfg id w w') ∧ ∀ l, a = some l → ∀ job ∈ l, job.id ≠ id) w := by
  induction queues generalizing w jobs with
  | nil => exact ⟨⟨h, .refl id w⟩, fun l hl => Option.some.inj hl ▸ hjobs⟩
  | cons queue queues ih =>
    have hrest : OutOfReach cfg queues id w := fun q hq => hout q (List.mem_cons_of_mem _ hq)
    have hend : ∀ w' jobs', Tidy w' → PassedOver cfg id w w' → (∀ job ∈ jobs', job.id ≠ id) →
        wp ρ.env.every (fetchQueues cfg n now worker count visSec queues jobs') (fun a w'' =>
          (Tidy w'' ∧ PassedOver cfg id w w'') ∧ ∀ l, a = some l → ∀ job ∈ l, job.id ≠ id) w' :=
      fun w' jobs' h' hs' hjobs' => wp_mono (Env.every_mono _) _ (ih h' (hrest.passedOver hs') hjobs')
        fun _ _ hx => ⟨⟨hx.1.1, hs'.trans hx.1.2⟩, hx.2⟩
    rw [fetchQueues, wp_ite]
    split
    · exact ⟨⟨h, .refl id w⟩, fun l hl => Option.some.inj hl ▸ hjobs⟩
    · rw [wp_bind]
      refine (wp_isQueuePaused_eq hρ fun b w' => wp ρ.env.every (if b = true then _ else _) _ w').mpr ?_
      rw [wp_ite]
      split
      · exact hend w jobs h (.refl id w) hjobs
      · rename_i hp
        have hp : w.paused queue = false := Bool.eq_false_iff.mpr hp
        rw [wp_bind, wp_getOrCreateQueueURL cfg hρ]
        simp only
        rw [wp_bind]
        have hs₀ : PassedOver cfg id w (w.openQueue cfg queue) := passedOver_openQueue queue
        have hout₀ : ∀ m ∈ (w.openQueue cfg queue).sqs.messagesOf id,
            m.queueURL ≠ w.urlOf cfg queue := by
          rw [hs₀.messages]
          exact hout queue List.mem_cons_self hp
        refine wp_mono (Env.every_mono _) _ (fetchQueue_spares hρ (h.openQueue queue) hout₀ n hjobs) ?_
        rintro a w₁ ⟨⟨h₁, hs₁⟩, ha⟩
        cases a with
        | none => exact ⟨⟨h₁, hs₀.trans hs₁⟩, fun _ hj => by cases hj⟩
        | some jobs₁ => exact hend w₁ jobs₁ h₁ (hs₀.trans hs₁) (ha jobs₁ rfl)

/-- **A Fetch spares the jobs out of its reach.** -/
theorem fetch_spares (h : Tidy w) {fuel : Nat} {queues : List String} {vis : Int}
    (hout : OutOfReach cfg queues id w) :
    wp ρ.env.every (fetch cfg fuel queues count worker vis) (fun a w' =>
      (Tidy w' ∧ PassedOver cfg id w w') ∧ ∀ l, a = some l → ∀ job ∈ l, job.id ≠ id) w := by
  rw [fetch, wp_bind]
  refine wp_timeNow fun t _ => ?_
  have hs₀ : PassedOver cfg id w (w.setClock t) := passedOver_setClock t
  refine wp_mono (Env.every_mono _) _ (fetchQueues_spares hρ (h.setClock t) (hout.passedOver hs₀) fuel
    fun _ hj => absurd hj List.not_mem_nil) fun _ _ hx => ⟨⟨hx.1.1, hs₀.trans hx.1.2⟩, hx.2⟩

end

end OjsSqs
