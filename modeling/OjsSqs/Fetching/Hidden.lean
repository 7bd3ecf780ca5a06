import OjsSqs.Fetching.Collected
import OjsSqs.Fetching.Reach

/-! # Hidden messages are not fetched

A Fetch receives visible messages only. A job whose messages are hidden in every
queue the Fetch may read keeps its record and is not returned, also when calls
fail and jobs have more than one message. -/
namespace OjsSqs
open Calls

/-! ## What every call keeps -/

/-- Message identifiers stay unique, and handles keep naming their message. -/
theorem SqsState.act_sound {ch : Choice} {c : SqsCall} {q q' : SqsState}
    {r : Except AwsError c.Answer} (h : q.act ch c = some (r, q')) (hq : q.Sound) : q'.Sound := by
  have hsame : ∀ q₁ : SqsState, q₁.messages = q.messages → q₁.nextMessage = q.nextMessage →
      q₁.Sound := by
    intro q₁ hm hn
    refine ⟨by rw [hm]; exact hq.nodup, ?_, by rw [hm]; exact hq.receipts⟩
    rw [hm, hn]
    exact hq.fresh
  have hbatch : ∀ url (entries : List OutMessage) (q₁ : SqsState), q₁.Sound →
      (q₁.sendBatch url entries).Sound := by
    intro url entries
    induction entries with
    | nil => exact fun _ h => h
    | cons e entries ih => exact fun q₁ h => ih _ (SqsState.sound_send url e h)
  cases ch with
  | fault msg => cases c <;> (cases h; exact hq)
  | deliver ids =>
    cases c with
    | receiveMessage url max vis =>
      obtain ⟨hp, h⟩ := Option.ite_none_right_eq_some.mp h
      cases h
      exact (SqsState.receive_spec vis (SqsState.mayPick_visible hp).1 hq).sound
    | _ => cases h
  | refuse places =>
    cases c with
    | sendMessageBatch url entries =>
      cases h
      exact hbatch url _ q hq
    | _ => cases h
  | ok =>
    cases c with
    | createQueue name => cases h; exact SqsState.sound_createQueue name hq
    | sendMessage url m => cases h; exact SqsState.sound_send url m hq
    | sendMessageBatch url entries => cases h; exact hbatch url entries q hq
    | receiveMessage url max vis => cases h
    | deleteMessage url r =>
      cases h
      rw [SqsState.delete_eq]
      exact hq.filter _
    | changeMessageVisibility url r vis =>
      cases h
      rw [SqsState.changeVisibility_eq]
      exact hq.map fun m => SqsState.same_showMessage url r vis m
    | getQueueArn url => cases h; exact hq
    | setRedrivePolicy url arn n => cases h; exact hsame _ rfl rfl
  | _ => cases c <;> cases h

section
variable {ρ : Rules} {w w' : World}

theorem Rules.env_tidy {c : Call} {a : Answer c} (h : ρ.env c w a w') (hw : Tidy w) : Tidy w' := by
  refine ⟨?_, Rules.env_named h hw.named⟩
  cases c with
  | dynamo d =>
    obtain ⟨ch, s', -, -, rfl⟩ := Rules.env_dynamo h
    exact hw.sqs
  | sqs c =>
    obtain ⟨ch, q', -, hact, rfl⟩ := Rules.env_sqs h
    exact SqsState.act_sound hact hw.sqs
  | proc c =>
    rw [Rules.env_proc_sqs h]
    exact hw.sqs

/-- **Every program keeps the tables tidy**, whatever fails. -/
theorem Tidy.runs {α : Type} {p : M α} {a : α} (hw : Tidy w) (h : Runs ρ.env p w a w') : Tidy w' := by
  induction h with
  | pure => exact hw
  | call he _ ih => exact ih (Rules.env_tidy he hw)

end

/-! ## A job that is left out -/

/-- The job's messages in the queue are hidden. -/
def HiddenAt (url id : String) (w : World) : Prop :=
  ∀ m ∈ w.sqs.messagesOf id, m.queueURL = url → m.visible = false

/-- The job's messages are hidden in every queue the Fetch reads. A failing call
can make it read a paused queue. -/
def OutOfSight (cfg : Config) (ρ : Rules) (queues : List String) (id : String) (w : World) : Prop :=
  ∀ queue ∈ queues, (ρ.faults = false → w.paused queue = false) → HiddenAt (w.urlOf cfg queue) id w

/-- The job's record is as it was, no message of it came to light, and a Fetch
reads the same queues. -/
structure LeftOut (cfg : Config) (id : String) (w w' : World) : Prop where
  tidy : Tidy w'
  job : w'.store.jobs.lookup id = w.store.jobs.lookup id
  hidden : ∀ url, HiddenAt url id w → HiddenAt url id w'
  queues : w'.store.queues = w.store.queues
  urls : ∀ queue, w'.urlOf cfg queue = w.urlOf cfg queue

section
variable {cfg : Config} {ρ : Rules} {id : String} {w w' w'' : World} {url queue : String}

theorem LeftOut.refl (h : Tidy w) : LeftOut cfg id w w := ⟨h, rfl, fun _ h => h, rfl, fun _ => rfl⟩

theorem LeftOut.trans (h : LeftOut cfg id w w') (h' : LeftOut cfg id w' w'') : LeftOut cfg id w w'' :=
  ⟨h'.tidy, h'.job.trans h.job, fun url hu => h'.hidden url (h.hidden url hu),
    h'.queues.trans h.queues, fun queue => (h'.urls queue).trans (h.urls queue)⟩

theorem OutOfSight.leftOut {queues : List String} (h : OutOfSight cfg ρ queues id w)
    (hl : LeftOut cfg id w w') : OutOfSight cfg ρ queues id w' := by
  intro queue hq hp
  rw [hl.urls]
  refine hl.hidden _ (h queue hq fun hρ => ?_)
  have hpaused := hp hρ
  rw [World.paused, Store.queueItem, hl.queues] at hpaused
  exact hpaused

theorem leftOut_setClock (h : Tidy w) (t : Time) : LeftOut cfg id w (w.setClock t) :=
  ⟨h.setClock t, rfl, fun _ h => h, rfl, fun _ => rfl⟩

theorem leftOut_setJob (h : Tidy w) {i : String} (hi : i ≠ id) {r : JobRecord} (hr : r.id = i) :
    LeftOut cfg id w (w.setJob i r) :=
  ⟨h.setJob hr, World.setJob_lookup_ne r hi.symm, fun _ h => h, rfl, fun _ => rfl⟩

theorem leftOut_openQueue (h : Tidy w) (queue : String) : LeftOut cfg id w (w.openQueue cfg queue) := by
  have hp : PassedOver cfg id w (w.openQueue cfg queue) := passedOver_openQueue queue
  refine ⟨h.openQueue queue, hp.job, fun url hu => ?_, hp.queues, hp.urls⟩
  rw [HiddenAt, hp.messages]
  exact hu

theorem leftOut_delete (h : Tidy w) (url : String) (r : Receipt) :
    LeftOut cfg id w (w.setSqs (w.sqs.delete url r)) := by
  refine ⟨⟨?_, h.named⟩, rfl, fun u hu m hm => hu m ?_, rfl, fun _ => rfl⟩
  · rw [World.setSqs, SqsState.delete_eq]
    exact h.sqs.filter _
  · rw [World.setSqs, SqsState.delete_eq, SqsState.messagesOf_filter] at hm
    exact (List.mem_filter.mp hm).1

/-- A receive from a queue where the job's messages are hidden. -/
theorem leftOut_receive (h : Tidy w) {max : Nat} (vis : Int) {ids : List MessageId}
    (hp : w.sqs.mayPick url max ids = true) (hidden : HiddenAt url id w) :
    LeftOut cfg id w (w.setSqs (w.sqs.receive vis ids).2) ∧
      ∀ d ∈ (w.sqs.receive vis ids).1, ∀ job, d.body = some job → job.id ≠ id := by
  obtain ⟨-, hnodup, hall⟩ := SqsState.picked_of_mayPick hp
  have hspec := SqsState.receive_spec vis hnodup h.sqs
  -- what is picked is visible, so it is none of the job's
  have hpicked : ∀ m ∈ w.sqs.messagesOf id, m.id ∉ ids := by
    intro m hm hi
    obtain ⟨m₀, hm₀, hid, hurl, hv⟩ := hall m.id hi
    rw [h.sqs.unique hm₀ (SqsState.mem_messagesOf.mp hm).1 hid] at hurl hv
    rw [hidden m hm hurl] at hv
    cases hv
  refine ⟨⟨⟨hspec.sound, h.named⟩, rfl, fun u hu m hm => ?_, rfl, fun _ => rfl⟩, fun d hd job hb hid => ?_⟩
  · rw [World.setSqs, receive_unpicked vis hpicked] at hm
    exact hu m hm
  · obtain ⟨m', hm', hid', hbody, -⟩ := hspec.deliveries d hd
    obtain ⟨m, hm, hsame, hbody', -⟩ := hspec.messages m' hm'
    have hmem : m ∈ w.sqs.messagesOf id := by
      refine SqsState.mem_messagesOf.mpr ⟨hm, ?_⟩
      rw [Message.jobID, ← hbody', hbody, hb, ← hid]
      rfl
    refine hpicked m hmem ?_
    rw [← hsame, hid']
    exact hspec.picked.subset (List.mem_map_of_mem hd)

/-! ## The loops -/

variable {now : Time} {worker : String} {count : Int}

theorem fetchMessage_leavesOut (h : Tidy w) {d : Delivery}
    (hd : ∀ job, d.body = some job → job.id ≠ id) :
    wp ρ.env.every (fetchMessage cfg now worker url d)
      (fun a w' => LeftOut cfg id w w' ∧ ∀ job, a = some job → job.id ≠ id) w := by
  have hnone : ∀ w', LeftOut cfg id w w' →
      LeftOut cfg id w w' ∧ ∀ job, (none : Option Job) = some job → job.id ≠ id :=
    fun w' hl => ⟨hl, fun _ hj => by cases hj⟩
  rw [fetchMessage]
  cases hb : d.body with
  | none => exact hnone w (.refl h)
  | some job =>
    have hne := hd job hb
    have hmoved : ∀ r s us, w.store.jobs.lookup job.id = some r → (r.moved s us).id = job.id :=
      fun r s us hr => JobRecord.moved_id r s us |>.trans (h.named job.id r hr)
    have hdelete : ∀ w₁, LeftOut cfg id w w₁ →
        wp ρ.env.every (do let _ ← sqs (.deleteMessage url d.receiptHandle); return none)
          (fun a w' => LeftOut cfg id w w' ∧ ∀ job, (a : Option Job) = some job → job.id ≠ id) w₁ := by
      intro w₁ hl
      rw [wp_bind]
      refine wp_sqs_faulty rfl (fun _ _ h => by cases h) (fun msg => hnone _ hl) ?_
      exact hnone _ (hl.trans (leftOut_delete hl.tidy url d.receiptHandle))
    simp only [wp_ite]
    split
    · rw [wp_bind]
      refine wp_updateJobState_any (fun e => hdelete w (.refl h)) fun r hr => ?_
      exact hdelete _ (leftOut_setJob h hne (hmoved _ _ _ hr))
    · rw [wp_bind]
      refine wp_updateJobState_any (fun e => hnone w (.refl h)) fun r hr => ?_
      have hl : LeftOut cfg id w _ :=
        leftOut_setJob h hne (hmoved _ .active (activeUpdates cfg now worker d) hr)
      simp only
      rw [wp_bind]
      refine wp_getJob_any (fun e => hnone _ hl) fun r' hr' => ?_
      refine ⟨hl, fun j hj => ?_⟩
      cases hj
      exact fun he => hne ((hl.tidy.named job.id r' hr').symm.trans he)

theorem fetchMessages_leavesOut (h : Tidy w) {ds : List Delivery}
    (hds : ∀ d ∈ ds, ∀ job, d.body = some job → job.id ≠ id) {jobs : List Job}
    (hjobs : ∀ job ∈ jobs, job.id ≠ id) :
    wp ρ.env.every (fetchMessages cfg now worker url count ds jobs)
      (fun a w' => LeftOut cfg id w w' ∧ ∀ job ∈ a, job.id ≠ id) w := by
  induction ds generalizing w jobs with
  | nil => exact ⟨.refl h, hjobs⟩
  | cons d ds ih =>
    rw [fetchMessages, wp_ite]
    split
    · exact ⟨.refl h, hjobs⟩
    · rw [wp_bind]
      refine wp_mono (Env.every_mono _) _ (fetchMessage_leavesOut h (hds d List.mem_cons_self)) ?_
      rintro a w₁ ⟨hl, ha⟩
      have hend : ∀ jobs', (∀ job ∈ jobs', job.id ≠ id) →
          wp ρ.env.every (fetchMessages cfg now worker url count ds jobs')
            (fun a w' => LeftOut cfg id w w' ∧ ∀ job ∈ a, job.id ≠ id) w₁ := fun jobs' hjobs' =>
        wp_mono (Env.every_mono _) _ (ih hl.tidy (fun d' hd' => hds d' (List.mem_cons_of_mem d hd'))
          hjobs') fun _ _ hx => ⟨hl.trans hx.1, hx.2⟩
      cases a with
      | none => exact hend jobs hjobs
      | some job =>
        refine hend _ fun j hj => ?_
        rcases List.mem_append.mp hj with hj | hj
        · exact hjobs j hj
        · rw [List.mem_singleton.mp hj]
          exact ha job rfl

theorem fetchQueue_leavesOut (h : Tidy w) (hidden : HiddenAt url id w) {visSec : Int} (n : Nat)
    {jobs : List Job} (hjobs : ∀ job ∈ jobs, job.id ≠ id) :
    wp ρ.env.every (fetchQueue cfg now worker url count visSec n jobs)
      (fun a w' => LeftOut cfg id w w' ∧ ∀ l, a = some l → ∀ job ∈ l, job.id ≠ id) w := by
  have hdone : ∀ w', LeftOut cfg id w w' →
      LeftOut cfg id w w' ∧ ∀ l, some jobs = some l → ∀ job ∈ l, job.id ≠ id :=
    fun w' hl => ⟨hl, fun l hl => Option.some.inj hl ▸ hjobs⟩
  induction n generalizing w jobs with
  | zero =>
    rw [fetchQueue]
    split
    · exact ⟨.refl h, fun _ hl => by cases hl⟩
    · exact hdone w (.refl h)
  | succ n ih =>
    rw [fetchQueue, wp_ite]
    split
    · rw [wp_bind]
      refine wp_receive_any (fun e => hdone w (.refl h)) fun ids hp => ?_
      obtain ⟨hl, hds⟩ : LeftOut cfg id w _ ∧ _ := leftOut_receive h visSec hp hidden
      generalize (w.sqs.receive visSec ids).1 = out at hds
      cases out with
      | nil => exact hdone _ hl
      | cons d ds =>
        simp only
        rw [wp_bind]
        refine wp_mono (Env.every_mono _) _ (fetchMessages_leavesOut hl.tidy hds hjobs) ?_
        rintro jobs₂ w₂ ⟨hl₂, hjobs₂⟩
        have hhidden₂ := hl₂.hidden url (hl.hidden url hidden)
        refine wp_mono (Env.every_mono _) _ (ih hl₂.tidy hhidden₂ hjobs₂ ?_)
          fun _ _ hx => ⟨(hl.trans hl₂).trans hx.1, hx.2⟩
        exact fun w' hl' => ⟨hl', fun l hl => Option.some.inj hl ▸ hjobs₂⟩
    · exact hdone w (.refl h)

/-- The flag the loop reads is the one of the item, unless a call fails. -/
theorem wp_isQueuePaused_cases {Q : Except Error Bool → World → Prop}
    (h : ∀ a, (ρ.faults = false → a.toOption.getD false = w.paused queue) → Q a w) :
    wp ρ.env.every (isQueuePaused queue) Q w := by
  cases hρ : ρ.faults with
  | true => exact wp_isQueuePaused_any fun a => h a fun hf => by rw [hρ] at hf; cases hf
  | false =>
    rw [isQueuePaused, wp_bind, wp_dynamo hρ rfl]
    simp only [Store.run]
    cases hq : w.store.queues.lookup queue <;>
      exact h _ fun _ => by rw [World.paused, Store.queueItem, hq]; rfl

theorem fetchQueues_leavesOut (h : Tidy w) {queues : List String}
    (hout : OutOfSight cfg ρ queues id w) {visSec : Int} (n : Nat) {jobs : List Job}
    (hjobs : ∀ job ∈ jobs, job.id ≠ id) :
    wp ρ.env.every (fetchQueues cfg n now worker count visSec queues jobs)
      (fun a w' => LeftOut cfg id w w' ∧ ∀ l, a = some l → ∀ job ∈ l, job.id ≠ id) w := by
  induction queues generalizing w jobs with
  | nil => exact ⟨.refl h, fun l hl => Option.some.inj hl ▸ hjobs⟩
  | cons queue queues ih =>
    have hrest : OutOfSight cfg ρ queues id w := fun q hq => hout q (List.mem_cons_of_mem _ hq)
    have hend : ∀ w' jobs', LeftOut cfg id w w' → (∀ job ∈ jobs', job.id ≠ id) →
        wp ρ.env.every (fetchQueues cfg n now worker count visSec queues jobs') (fun a w'' =>
          LeftOut cfg id w w'' ∧ ∀ l, a = some l → ∀ job ∈ l, job.id ≠ id) w' :=
      fun w' jobs' hl hjobs' => wp_mono (Env.every_mono _) _
        (ih hl.tidy (hrest.leftOut hl) hjobs') fun _ _ hx => ⟨hl.trans hx.1, hx.2⟩
    rw [fetchQueues, wp_ite]
    split
    · exact ⟨.refl h, fun l hl => Option.some.inj hl ▸ hjobs⟩
    · rw [wp_bind]
      refine wp_isQueuePaused_cases fun paused hpaused => ?_
      rw [wp_ite]
      split
      · exact hend w jobs (.refl h) hjobs
      · rename_i hp
        have hread : ρ.faults = false → w.paused queue = false := fun hρ =>
          (hpaused hρ).symm.trans (Bool.eq_false_iff.mpr hp)
        rw [wp_bind]
        refine wp_getOrCreateQueueURL_any (fun e => hend w jobs (.refl h) hjobs) ?_
        have hl₀ : LeftOut cfg id w (w.openQueue cfg queue) := leftOut_openQueue h queue
        have hhidden := hl₀.hidden _ (hout queue List.mem_cons_self hread)
        simp only
        rw [wp_bind]
        refine wp_mono (Env.every_mono _) _ (fetchQueue_leavesOut hl₀.tidy hhidden n hjobs) ?_
        rintro a w₁ ⟨hl₁, ha⟩
        cases a with
        | none => exact ⟨hl₀.trans hl₁, fun _ hj => by cases hj⟩
        | some jobs₁ => exact hend w₁ jobs₁ (hl₀.trans hl₁) (ha jobs₁ rfl)

/-- **A Fetch leaves out the jobs it cannot see.** -/
theorem fetch_leavesOut (h : Tidy w) {fuel : Nat} {queues : List String} {vis : Int}
    (hout : OutOfSight cfg ρ queues id w) :
    wp ρ.env.every (fetch cfg fuel queues count worker vis)
      (fun a w' => LeftOut cfg id w w' ∧ ∀ l, a = some l → ∀ job ∈ l, job.id ≠ id) w := by
  rw [fetch, wp_bind]
  refine wp_timeNow fun t _ => ?_
  have hl₀ : LeftOut cfg id w (w.setClock t) := leftOut_setClock h t
  refine wp_mono (Env.every_mono _) _ (fetchQueues_leavesOut hl₀.tidy (hout.leftOut hl₀) fuel
    fun _ hj => absurd hj List.not_mem_nil) fun _ _ hx => ⟨hl₀.trans hx.1, hx.2⟩

end
end OjsSqs
