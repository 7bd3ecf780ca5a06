import OjsSqs.Racing.Footprint
import OjsSqs.Sqs.Jobs

/-! # Calls that hand a job out and back

A Nack that requeues a job makes its message visible first and writes the
record later. A Fetch receives the message first and writes the record later.
Two monitors follow them, for one job and its message. An answer that the
store and the queues never give sends a monitor to `gone`, where nothing is
asked of it any more. -/
namespace OjsSqs
open Calls

/-- The result of one of the calls: of the Nack, or of a Fetch. -/
abbrev Handout := Except Error NackResponse ⊕ Option (List Job)

/-- Where a call stands. The Nack is before its check, has read an active
record, has made the message visible, has written the record, or has been
refused. A Fetch has not read the clock, holds no delivery of the job, holds
one, or has written the record and not read it back; `took` says that it will
return the job. -/
inductive Grip where
  | asks
  | read (r : JobRecord)
  | shown
  | put
  | refused
  | start
  | free (now : Time) (took : Bool)
  | holds (now : Time) (took : Bool) (d : Delivery)
  | wrote (now : Time) (d : Delivery)
  | gone

/-- The job a delivery is about. -/
def Delivery.jobID (d : Delivery) : Option String := d.body.map (·.id)

/-- What a Fetch holds of the deliveries it has not come to. -/
def Grip.holding (id : String) (now : Time) (took : Bool) (ds : List Delivery) : Grip :=
  match ds.filter fun d => d.jobID = some id with
  | [] => .free now took
  | [d] => .holds now took d
  | _ => .gone

/-- A receive of the Fetch. -/
def Grip.received (id : String) (message : MessageId) (now : Time) (took : Bool) (max : Nat)
    (ds : List Delivery) : Grip :=
  if ds.length ≤ max ∧ ∀ d ∈ ds, d.jobID ≠ some id → d.receiptHandle.message ≠ message then
    .holding id now took ds
  else .gone

section
variable (cfg : Config) (id : String) (message : MessageId)

/-- The calls that touch neither the job nor its message. -/
def Call.passes : Call → Prop
  | .dynamo (.getJobItem _) | .dynamo (.getQueueItem _) => True
  | .dynamo (.updateJobItem i _ _ _ _) => i ≠ id
  | .sqs (.createQueue _) => True
  | .sqs (.deleteMessage _ h) => h.message ≠ message
  | .proc (.lookupURL _) | .proc (.goEnsureDLQ _ _) => True
  | .proc (.cacheURL queue url) => url = sqsQueueName cfg queue
  | _ => False

/-- The answers of an orderly store in which the job is stored. -/
def Call.plausible : (c : Call) → Answer c → Bool
  | .dynamo (.getJobItem i), .ok (some r) => decide (r.id = i)
  | .dynamo (.getJobItem i), _ => decide (i ≠ id)
  | .sqs (.createQueue name), .ok url => decide (url = name)
  | .sqs (.createQueue _), .error _ => false
  | .proc (.lookupURL queue), some url => decide (url = sqsQueueName cfg queue)
  | _, _ => true

/-- The grip after a call that passes. -/
def Grip.after (s : Grip) (c : Call) (r : Answer c) : Grip :=
  if c.plausible cfg id r then s else .gone

/-- Follows a Fetch of the worker. -/
def taking (worker : String) : Monitor Grip Call Answer Handout where
  allow
    | .start, c => c = .proc .now
    | .free _ _, c => c.passes cfg id message ∨ ∃ url max vis, c = .sqs (.receiveMessage url max vis)
    | .holds now _ d, c => c.passes cfg id message ∨
      (∃ sk pk, c = .dynamo (.updateJobItem id .active (activeUpdates cfg now worker d) sk pk)) ∨
      ∃ b us sk pk, d.body = some b ∧ expired cfg now b = true ∧
        c = .dynamo (.updateJobItem id .discarded us sk pk)
    | .wrote _ _, c => c = .dynamo (.getJobItem id)
    | .gone, _ => True
    | _, _ => False
  next
    | .start, .proc .now, t => .free t false
    | .free now took, .sqs (.receiveMessage _ max _), .ok ds => .received id message now took max ds
    | .holds now took d, .dynamo (.updateJobItem i .active _ _ _), .ok _ =>
      if i = id then .wrote now d else .holds now took d
    | .holds now took d, .dynamo (.updateJobItem i _ _ _ _), _ =>
      if i = id then .gone else .holds now took d
    | .wrote now _, c, r => Grip.after cfg id (.free now true) c r
    | s, c, r => Grip.after cfg id s c r
  accept
    | .inr jobs, .free _ took => ∀ js, jobs = some js → (took = true ↔ ∃ j ∈ js, j.id = id)
    | _, .gone => True
    | _, _ => False

/-- Follows the Nack. -/
def requeueing : Monitor Grip Call Answer Handout where
  allow
    | .asks, c => c = .dynamo (.getJobItem id)
    | .read r, c => c.passes cfg id message ∨ c = .proc .now ∨ ∃ h, r.sqsReceiptHandle = some h ∧
        c = .sqs (.changeMessageVisibility (sqsQueueName cfg r.queue) h 0)
    | .shown, c => c.passes cfg id message ∨
      ∃ t sk pk, c = .dynamo (.updateJobItem id .available (requeueUpdates t) sk pk)
    | .put, c => c = .dynamo (.getJobItem id)
    | .gone, _ => True
    | _, _ => False
  next
    | .asks, .dynamo (.getJobItem _), .ok (some r) =>
      if r.state = .active then (if r.sqsReceiptHandle.isSome then .read r else .gone) else .refused
    | .asks, _, _ => .gone
    | .read _, .sqs (.changeMessageVisibility _ _ _), .ok _ => .shown
    | .read _, .sqs (.changeMessageVisibility _ _ _), .error _ => .gone
    | .shown, .dynamo (.updateJobItem i _ _ _ _), .ok _ => if i = id then .put else .shown
    | .shown, .dynamo (.updateJobItem i _ _ _ _), .error _ => if i = id then .gone else .shown
    | s, c, r => Grip.after cfg id s c r
  accept
    | .inl _, .put | .inl _, .refused => True
    | _, .gone => True
    | _, _ => False

end

/-! ## Calls that pass -/

/-- In this state the monitor lets the calls pass that touch nothing. -/
structure Lets (cfg : Config) (id : String) (message : MessageId)
    (m : Monitor Grip Call Answer Handout) (s : Grip) : Prop where
  passes : ∀ c, c.passes cfg id message →
    m.allow s c ∧ ∀ r, m.next s c r = Grip.after cfg id s c r
  gone : ∀ c, m.allow .gone c ∧ ∀ r, m.next .gone c r = .gone

section
variable {cfg : Config} {id worker : String} {message : MessageId}

theorem Grip.after_gone (c : Call) (r : Answer c) : Grip.after cfg id .gone c r = .gone :=
  ite_self _

theorem Grip.after_elim {s : Grip} {c : Call} {r : Answer c} {P : Grip → Prop}
    (hs : c.plausible cfg id r = true → P s) (hgone : P .gone) : P (Grip.after cfg id s c r) := by
  rw [Grip.after]
  split
  · exact hs ‹_›
  · exact hgone

theorem lets_free (now : Time) (took : Bool) :
    Lets cfg id message (taking cfg id message worker) (.free now took) := by
  refine ⟨fun c hc => ⟨.inl hc, fun r => ?_⟩, fun c => ⟨trivial, fun r => Grip.after_gone c r⟩⟩
  cases c with
  | sqs c => cases c <;> first | rfl | cases hc
  | _ => rfl

theorem lets_holds (now : Time) (took : Bool) (d : Delivery) :
    Lets cfg id message (taking cfg id message worker) (.holds now took d) := by
  refine ⟨fun c hc => ⟨.inl hc, fun r => ?_⟩, fun c => ⟨trivial, fun r => Grip.after_gone c r⟩⟩
  cases c with
  | dynamo d' =>
    cases d' with
    | updateJobItem i s us sk pk =>
      have hi : i ≠ id := hc
      cases s <;> rcases r with e | u <;> exact if_neg hi
    | _ => rfl
  | _ => rfl

theorem lets_read (r : JobRecord) : Lets cfg id message (requeueing cfg id message) (.read r) := by
  refine ⟨fun c hc => ⟨.inl hc, fun r => ?_⟩, fun c => ⟨trivial, fun r => Grip.after_gone c r⟩⟩
  cases c with
  | sqs c => cases c <;> first | rfl | cases hc
  | _ => rfl

theorem lets_shown : Lets cfg id message (requeueing cfg id message) .shown := by
  refine ⟨fun c hc => ⟨.inl hc, fun r => ?_⟩, fun c => ⟨trivial, fun r => Grip.after_gone c r⟩⟩
  cases c with
  | dynamo d' =>
    cases d' with
    | updateJobItem i s us sk pk =>
      have hi : i ≠ id := hc
      rcases r with e | u <;> exact if_neg hi
    | _ => rfl
  | _ => rfl

variable {m : Monitor Grip Call Answer Handout} {s : Grip} {β : Type}

theorem Lets.wp_gone (h : Lets cfg id message m s) {p : M β} {Q : β → Grip → Prop}
    (hQ : ∀ a, Q a .gone) : wp m.effect p Q .gone := by
  induction p with
  | pure a => exact hQ a
  | call c k ih =>
    refine ⟨(h.gone c).1, fun r => ?_⟩
    rw [(h.gone c).2 r]
    exact ih r

/-- A call that passes. -/
theorem Lets.wp_perform (h : Lets cfg id message m s) {c : Call} (hc : c.passes cfg id message)
    {Q : Answer c → Grip → Prop} (hQ : ∀ r, c.plausible cfg id r = true → Q r s)
    (hgone : ∀ r, Q r .gone) : wp m.effect (Prog.perform c) Q s := by
  obtain ⟨ha, hn⟩ := h.passes c hc
  rw [Calls.wp_perform]
  refine ⟨ha, fun r => ?_⟩
  rw [hn r]
  exact Grip.after_elim (hQ r) (hgone r)

/-- A read of some record. -/
theorem Lets.wp_getJob (h : Lets cfg id message m s) {i : String}
    {Q : Except Error JobRecord → Grip → Prop} (hok : ∀ r, r.id = i → Q (.ok r) s)
    (herr : i ≠ id → ∀ e, Q (.error e) s) (hgone : ∀ a, Q a .gone) :
    wp m.effect (getJob i) Q s := by
  rw [getJob, wp_bind]
  refine h.wp_perform (c := .dynamo (.getJobItem i)) trivial (fun a ha => ?_) fun a =>
    h.wp_gone hgone
  rcases a with e | _ | r
  · exact herr (of_decide_eq_true ha) _
  · exact herr (of_decide_eq_true ha) _
  · exact hok r (of_decide_eq_true ha)

/-- An update of another job. -/
theorem Lets.wp_updateJobState (h : Lets cfg id message m s) {i : String} (hi : i ≠ id)
    {st : JobState} {us : List JobUpdate} {Q : Except Error Unit → Grip → Prop}
    (hQ : ∀ a, Q a s) (hgone : ∀ a, Q a .gone) :
    wp m.effect (updateJobState i st us) Q s := by
  rw [updateJobState, wp_bind]
  refine h.wp_getJob (fun r _ => ?_) (fun _ e => hQ _) fun a => h.wp_gone hgone
  simp only
  rw [request, wp_bind]
  refine h.wp_perform (c := .dynamo (.updateJobItem i st us _ _)) hi (fun a _ => ?_) fun a =>
    h.wp_gone hgone
  rcases a with e | u <;> exact hQ _

/-- A queue's URL is its name. -/
theorem Lets.wp_getOrCreateQueueURL (h : Lets cfg id message m s) {queue : String}
    {Q : Except Error String → Grip → Prop} (hok : Q (.ok (sqsQueueName cfg queue)) s)
    (hgone : ∀ a, Q a .gone) : wp m.effect (getOrCreateQueueURL cfg queue) Q s := by
  rw [getOrCreateQueueURL, wp_bind]
  refine h.wp_perform (c := .proc (.lookupURL queue)) trivial (fun a ha => ?_) fun a =>
    h.wp_gone hgone
  rcases a with _ | url
  · simp only
    rw [wp_bind]
    refine h.wp_perform (c := .sqs (.createQueue (sqsQueueName cfg queue))) trivial
      (fun a ha => ?_) fun a => h.wp_gone hgone
    rcases a with e | url
    · cases ha
    · rw [show url = sqsQueueName cfg queue from of_decide_eq_true ha]
      simp only
      rw [wp_bind]
      refine h.wp_perform (c := .proc (.goEnsureDLQ queue _)) trivial (fun _ _ => ?_) fun a =>
        h.wp_gone hgone
      rw [wp_bind]
      exact h.wp_perform (c := .proc (.cacheURL queue _)) rfl (fun _ _ => hok) fun a =>
        h.wp_gone hgone
  · rw [show url = sqsQueueName cfg queue from of_decide_eq_true ha]
    exact hok

end

/-! ## The Fetch -/

section
variable (cfg : Config) {id worker url : String} {message : MessageId} {now : Time}

/-- A delivery of another job is nothing to the job. -/
theorem taking_fetchMessage_other {s : Grip}
    (h : Lets cfg id message (taking cfg id message worker) s) {d : Delivery}
    (hd : d.jobID ≠ some id) (hm : d.receiptHandle.message ≠ message)
    {Q : Option Job → Grip → Prop} (hnone : Q none s) (hsome : ∀ job, job.id ≠ id → Q (some job) s)
    (hgone : ∀ a, Q a .gone) :
    wp (taking cfg id message worker).effect (fetchMessage cfg now worker url d) Q s := by
  rw [fetchMessage]
  split
  · exact hnone
  · rename_i job hbody
    have hid : job.id ≠ id := fun hid => hd (by rw [Delivery.jobID, hbody, Option.map_some, hid])
    rw [wp_ite]
    split
    · rw [wp_bind]
      refine h.wp_updateJobState hid (fun a => ?_) fun a => h.wp_gone hgone
      rw [wp_bind]
      exact h.wp_perform (c := .sqs (.deleteMessage url d.receiptHandle)) hm (fun _ _ => hnone)
        fun _ => hgone _
    · rw [wp_bind]
      refine h.wp_updateJobState hid (fun a => ?_) fun a => h.wp_gone hgone
      rcases a with e | u
      · exact hnone
      · simp only
        rw [wp_bind]
        refine h.wp_getJob (fun r hr => ?_) (fun _ e => hnone) fun a => h.wp_gone hgone
        have hne : (recordToJob r).id ≠ id := fun h => hid (hr.symm.trans h)
        exact hsome _ hne

/-- The delivery of the job is activated and read back. -/
theorem taking_fetchMessage_own {took : Bool} {d : Delivery} (hd : d.jobID = some id)
    {Q : Option Job → Grip → Prop} (hsome : ∀ job, job.id = id → Q (some job) (.free now true))
    (hgone : ∀ a, Q a .gone) :
    wp (taking cfg id message worker).effect (fetchMessage cfg now worker url d) Q
      (.holds now took d) := by
  have h : Lets cfg id message (taking cfg id message worker) (.holds now took d) :=
    lets_holds now took d
  obtain ⟨job, hbody, hid⟩ := Option.map_eq_some_iff.mp hd
  rw [fetchMessage, hbody]
  simp only [hid, wp_ite]
  split
  · rename_i hexp
    rw [wp_bind, updateJobState, wp_bind]
    refine h.wp_getJob (fun r _ => ?_) (fun hne => absurd rfl hne) fun a => h.wp_gone fun a =>
      h.wp_gone hgone
    simp only
    rw [request, wp_bind, dynamo, wp_perform]
    refine ⟨.inr (.inr ⟨job, [], _, _, hbody, hexp, rfl⟩), fun a => ?_⟩
    rw [show (taking cfg id message worker).next (.holds now took d) (.dynamo (.updateJobItem id
      .discarded [] _ _)) a = .gone by rcases a with e | u <;> exact if_pos rfl]
    exact h.wp_gone fun a => h.wp_gone hgone
  · rw [wp_bind, updateJobState, wp_bind]
    refine h.wp_getJob (fun r _ => ?_) (fun hne => absurd rfl hne) fun a => h.wp_gone fun a =>
      h.wp_gone hgone
    simp only
    rw [request, wp_bind, dynamo, wp_perform]
    refine ⟨.inr (.inl ⟨_, _, rfl⟩), fun a => ?_⟩
    rcases a with e | u
    · rw [show (taking cfg id message worker).next (.holds now took d) (.dynamo (.updateJobItem id
        .active _ _ _)) (.error e) = .gone from if_pos rfl]
      exact h.wp_gone fun a => h.wp_gone hgone
    · rw [show (taking cfg id message worker).next (.holds now took d) (.dynamo (.updateJobItem id
        .active _ _ _)) (.ok u) = .wrote now d from if_pos rfl]
      simp only [wp_pure]
      rw [wp_bind, getJob, wp_bind, dynamo, wp_perform]
      refine ⟨rfl, fun a => ?_⟩
      refine Grip.after_elim (s := .free now true) (c := .dynamo (.getJobItem id))
        (P := fun s => wp _ _ _ s) (fun ha => ?_) (h.wp_gone fun a => h.wp_gone hgone)
      rcases a with e | _ | r
      · exact absurd rfl (of_decide_eq_true ha)
      · exact absurd rfl (of_decide_eq_true ha)
      · have hr : r.id = id := of_decide_eq_true ha
        exact hsome _ hr

/-- The calls of a Fetch end with the job in hand if it was taken. -/
def Kept (id : String) (now : Time) (jobs : Option (List Job)) (s : Grip) : Prop :=
  (∃ took, s = .free now took ∧ ∀ js, jobs = some js → (took = true ↔ ∃ j ∈ js, j.id = id)) ∨
    s = .gone

theorem kept_free {took : Bool} {jobs : List Job} (h : took = true ↔ ∃ j ∈ jobs, j.id = id) :
    Kept id now (some jobs) (.free now took) :=
  .inl ⟨took, rfl, fun js hjs => by cases hjs; exact h⟩

/-- The deliveries of one receive, with room for all of them. -/
theorem taking_fetchMessages {count : Int} (ds : List Delivery) {jobs : List Job} {took : Bool}
    (hjobs : took = true ↔ ∃ j ∈ jobs, j.id = id)
    (hroom : (jobs.length + ds.length : Int) ≤ count)
    (hm : ∀ d ∈ ds, d.jobID ≠ some id → d.receiptHandle.message ≠ message)
    {Q : List Job → Grip → Prop}
    (hQ : ∀ js took, (took = true ↔ ∃ j ∈ js, j.id = id) → Q js (.free now took))
    (hgone : ∀ js, Q js .gone) :
    wp (taking cfg id message worker).effect (fetchMessages cfg now worker url count ds jobs) Q
      (.holding id now took ds) := by
  have hlet : Lets cfg id message (taking cfg id message worker) (.free now took) :=
    lets_free now took
  induction ds generalizing jobs took with
  | nil => exact hQ jobs took hjobs
  | cons d ds ih =>
    rw [List.length_cons] at hroom
    have hm' : ∀ d ∈ ds, d.jobID ≠ some id → d.receiptHandle.message ≠ message :=
      fun x hx => hm x (List.mem_cons_of_mem _ hx)
    have hmore : ∀ job : Job, ((jobs ++ [job]).length + ds.length : Int) ≤ count := fun job => by
      rw [List.length_append, List.length_singleton]
      push_cast at hroom ⊢
      omega
    rw [fetchMessages, wp_ite, if_neg (by push_cast at hroom; omega), wp_bind]
    by_cases hd : d.jobID = some id
    · -- its own delivery: there is no other
      rw [Grip.holding, List.filter_cons, if_pos (decide_eq_true hd)]
      cases hrest : ds.filter fun d => d.jobID = some id with
      | nil =>
        refine taking_fetchMessage_own cfg hd (fun job hid => ?_) fun a => hlet.wp_gone hgone
        have hjob : true = true ↔ ∃ j ∈ jobs ++ [job], j.id = id :=
          ⟨fun _ => ⟨job, by simp, hid⟩, fun _ => rfl⟩
        have h := ih hjob (hmore job) hm' (lets_free now true)
        rw [Grip.holding, hrest] at h
        exact h
      | cons d' ds' => exact hlet.wp_gone fun a => hlet.wp_gone hgone
    · rw [Grip.holding, List.filter_cons, if_neg (by simpa using hd), ← Grip.holding]
      have hroom' : (jobs.length + ds.length : Int) ≤ count := by push_cast at hroom; omega
      have hskip := ih hjobs hroom' hm' hlet
      have hother : ∀ job : Job, job.id ≠ id → (took = true ↔ ∃ j ∈ jobs ++ [job], j.id = id) :=
        fun job hid => by simp [hjobs, hid, List.mem_append]
      have hlets : Lets cfg id message (taking cfg id message worker) (.holding id now took ds) ∨
          Grip.holding id now took ds = .gone := by
        rw [Grip.holding]
        split
        · exact .inl hlet
        · exact .inl (lets_holds now took _)
        · exact .inr rfl
      rcases hlets with hlets | hlets
      · exact taking_fetchMessage_other cfg hlets hd (hm d List.mem_cons_self hd) hskip
          (fun job hid => ih (hother job hid) (hmore job) hm' hlet) fun a => hlet.wp_gone hgone
      · rw [hlets]
        exact hlet.wp_gone fun a => hlet.wp_gone hgone

theorem taking_fetchQueue {count visSec : Int} (fuel : Nat) {jobs : List Job} {took : Bool}
    (hjobs : took = true ↔ ∃ j ∈ jobs, j.id = id) :
    wp (taking cfg id message worker).effect
      (fetchQueue cfg now worker url count visSec fuel jobs) (Kept id now) (.free now took) := by
  induction fuel generalizing jobs took with
  | zero =>
    rw [fetchQueue]
    refine .inl ⟨took, rfl, fun js hjs => ?_⟩
    split at hjs
    · cases hjs
    · cases hjs
      exact hjobs
  | succ fuel ih =>
    rw [fetchQueue, wp_ite]
    split
    · rename_i hroom
      rw [wp_bind, sqs, wp_perform]
      refine ⟨.inr ⟨url, _, visSec, rfl⟩, fun a => ?_⟩
      rcases a with e | ds
      · exact kept_free hjobs
      · have hlet : Lets cfg id message (taking cfg id message worker) (.free now took) :=
          lets_free now took
        show wp _ _ _ (Grip.received id message now took (batchSize count jobs).toNat ds)
        rw [Grip.received]
        by_cases hds : ds.length ≤ (batchSize count jobs).toNat ∧
            ∀ d ∈ ds, d.jobID ≠ some id → d.receiptHandle.message ≠ message
        · rw [if_pos hds]
          cases ds with
          | nil => exact kept_free hjobs
          | cons d ds =>
            simp only
            rw [wp_bind]
            refine taking_fetchMessages cfg (d :: ds) hjobs ?_ hds.2 (fun js took' hjs => ih hjs) ?_
            · have hb : batchSize count jobs ≤ count - jobs.length := min_le_left _ _
              have hto := Int.toNat_of_nonneg (le_of_lt hroom.2)
              have hlen := hds.1
              omega
            · exact fun js => hlet.wp_gone fun _ => .inr rfl
        · rw [if_neg hds]
          exact hlet.wp_gone fun _ => .inr rfl
    · exact kept_free hjobs

theorem taking_fetchQueues {count visSec : Int} (fuel : Nat) (queues : List String)
    {jobs : List Job} {took : Bool} (hjobs : took = true ↔ ∃ j ∈ jobs, j.id = id) :
    wp (taking cfg id message worker).effect
      (fetchQueues cfg fuel now worker count visSec queues jobs) (Kept id now) (.free now took) := by
  induction queues generalizing jobs took with
  | nil => exact kept_free hjobs
  | cons queue queues ih =>
    have hlet : Lets cfg id message (taking cfg id message worker) (.free now took) :=
      lets_free now took
    have hkept : ∀ a, Kept id now a Grip.gone := fun a => .inr rfl
    rw [fetchQueues, wp_ite]
    split
    · exact kept_free hjobs
    · rw [wp_bind, isQueuePaused, wp_bind]
      refine hlet.wp_perform (c := .dynamo (.getQueueItem queue)) trivial (fun a _ => ?_) fun a =>
        hlet.wp_gone fun a => hlet.wp_gone hkept
      rcases a with e | _ | item
      on_goal 3 =>
        show wp _ (if item.paused = true then _ else _) _ _
        rw [wp_ite]
        split
        · exact ih hjobs
      -- a queue that is not paused
      all_goals
        refine (wp_bind ..).mpr ?_
        refine hlet.wp_getOrCreateQueueURL ?_ fun a => hlet.wp_gone hkept
        simp only
        rw [wp_bind]
        refine wp_mono (Monitor.effect_mono _) _ (taking_fetchQueue cfg fuel hjobs) ?_
        rintro js s (⟨took', rfl, hjs⟩ | rfl)
        · rcases js with _ | js
          · exact .inl ⟨took', rfl, fun _ h => by cases h⟩
          · exact ih (hjs js rfl)
        · exact hlet.wp_gone hkept

theorem taking_fetch (fuel : Nat) (queues : List String) (count vis : Int) :
    (taking cfg id message worker).Conforms (Sum.inr <$> fetch cfg fuel queues count worker vis)
      .start := by
  rw [Monitor.Conforms, wp_map, fetch, wp_bind, timeNow, wp_perform]
  refine ⟨rfl, fun t => ?_⟩
  have hstart : false = true ↔ ∃ j ∈ ([] : List Job), j.id = id := by simp
  refine wp_mono (Monitor.effect_mono _) _
    (taking_fetchQueues cfg fuel queues hstart) ?_
  rintro js s (⟨took, rfl, hjs⟩ | rfl)
  · exact hjs
  · trivial

end

/-! ## The Nack -/

theorem requeueing_nack (cfg : Config) {id : String} {message : MessageId}
    (jobErr : Option JobError) :
    (requeueing cfg id message).Conforms (Sum.inl <$> nack cfg id jobErr true) .asks := by
  have hlet : Lets cfg id message (requeueing cfg id message) .shown := lets_shown
  have hgone : ∀ a, (requeueing cfg id message).accept a .gone := fun a => by
    rcases a with a | a <;> trivial
  rw [Monitor.Conforms, wp_map, nack, wp_bind, getJob, wp_bind, dynamo, wp_perform]
  refine ⟨rfl, fun a => ?_⟩
  rcases a with e | _ | r
  · trivial
  · trivial
  · show wp _ _ _ (if r.state = .active then _ else _)
    simp only [wp_pure]
    by_cases hs : r.state = .active
    · rw [if_pos hs, wp_ite, if_neg (by simp [hs]), wp_bind]
      by_cases hsome : r.sqsReceiptHandle.isSome
      · rw [if_pos hsome]
        have hread : Lets cfg id message (requeueing cfg id message) (.read r) := lets_read r
        rw [timeNow, wp_perform]
        refine ⟨.inr (.inl rfl), fun now => ?_⟩
        obtain ⟨h, hh⟩ := Option.isSome_iff_exists.mp hsome
        rw [wp_ite, if_pos trivial, nackRequeue, wp_bind, releaseMessage, hh]
        simp only
        rw [wp_bind]
        refine hread.wp_getOrCreateQueueURL ?_ fun a => hlet.wp_gone fun a => hlet.wp_gone fun _ =>
          hgone _
        simp only
        rw [wp_bind, sqs, wp_perform]
        refine ⟨.inr (.inr ⟨h, hh, rfl⟩), fun a => ?_⟩
        rcases a with e | u
        · exact hgone _
        · show wp _ _ _ Grip.shown
          simp only [wp_pure]
          rw [wp_bind, updateJobState, wp_bind]
          refine hlet.wp_getJob (fun r' _ => ?_) (fun hne => absurd rfl hne) fun a =>
            hlet.wp_gone fun a => hlet.wp_gone fun _ => hgone _
          simp only
          rw [request, wp_bind, dynamo, wp_perform]
          refine ⟨.inr ⟨_, _, _, rfl⟩, fun a => ?_⟩
          rcases a with e | u
          · show wp _ _ _ (if id = id then Grip.gone else _)
            rw [if_pos rfl]
            exact hlet.wp_gone fun a => hlet.wp_gone fun _ => hgone _
          · show wp _ _ _ (if id = id then Grip.put else _)
            rw [if_pos rfl]
            simp only [wp_pure]
            rw [wp_bind, info, wp_bind, getJob, wp_bind, dynamo, wp_perform]
            refine ⟨rfl, fun a => ?_⟩
            refine Grip.after_elim (s := .put) (c := .dynamo (.getJobItem id))
              (P := fun s => wp _ _ _ s) (fun _ => ?_) ?_ <;>
              rcases a with e | _ | r' <;> trivial
      · rw [if_neg hsome]
        exact hlet.wp_gone fun a => hlet.wp_gone fun _ => hgone _
    · rw [if_neg hs, wp_ite, if_pos hs]
      trivial

end OjsSqs
