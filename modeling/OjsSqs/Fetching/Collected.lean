import Mathlib.Algebra.Group.Int.Defs
import OjsSqs.Atomic.Steps
import OjsSqs.Faults.Methods
import OjsSqs.Faults.Promote
import OjsSqs.Fetching.Background
import OjsSqs.Fetching.Visible
import OjsSqs.Lifecycle.Invariant

/-! # A Fetch comes to its end

The receive loop of a queue has no counter: it ends when enough jobs are there
or when a receive finds nothing. A visibility timeout of at least a second
hides what was received, so that every receive that finds something leaves fewer
messages, and no message is received twice, whatever is set up behind the Fetch.
Without one, a message that no job comes of can be received for ever, and a job
more than once. No visibility timeout runs out here: a Fetch is taken to be over
before its own does. -/
namespace OjsSqs
open Calls

/-! ## What has been collected -/

/-- The job is stored as the worker's active job, with the handle under which
its message was received. -/
structure GivenTo (worker : String) (job : Job) (r : JobRecord) (m : Message) (w : World) : Prop where
  stored : w.store.jobs.lookup job.id = some r
  shown : recordToJob r = job
  state : r.state = .active
  worker : r.workerID = worker
  message : m ∈ w.sqs.messages
  about : m.jobID = some job.id
  hidden : m.visible = false
  receipt : ∃ h, m.receipt = some h ∧ r.sqsReceiptHandle = some h

/-- Each job has at most one message. -/
def SqsState.OneEach (q : SqsState) : Prop := ∀ id, (q.messagesOf id).length ≤ 1

theorem SqsState.OneEach.unique {q : SqsState} (hq : q.OneEach) {m m' : Message} {id : String}
    (hm : m ∈ q.messages) (hid : m.jobID = some id) (hm' : m' ∈ q.messages)
    (hid' : m'.jobID = some id) : m = m' := by
  have hin : m ∈ q.messagesOf id := SqsState.mem_messagesOf.mpr ⟨hm, hid⟩
  have hin' : m' ∈ q.messagesOf id := SqsState.mem_messagesOf.mpr ⟨hm', hid'⟩
  have hone := hq id
  match he : q.messagesOf id with
  | [] => rw [he] at hin; cases hin
  | [m₀] =>
    rw [he] at hin hin'
    rw [List.mem_singleton.mp hin, List.mem_singleton.mp hin']
  | _ :: _ :: _ => rw [he] at hone; exact absurd hone (by simp)

/-- What a Fetch starts from. -/
structure Stocked (w : World) : Prop where
  sound : w.sqs.Sound
  named : w.NamedJobs
  oneEach : w.sqs.OneEach

/-- The jobs of a Fetch so far. -/
structure Collected (worker : String) (jobs : List Job) (w : World) : Prop extends Stocked w where
  nodup : (jobs.map (·.id)).Nodup
  handed : ∀ job ∈ jobs, ∃ r m, GivenTo worker job r m w

/-- The deliveries that have not been handled: their messages are hidden, and no
job that was collected has one of them. -/
structure Unhandled (ds : List Delivery) (jobs : List Job) (w : World) : Prop where
  ids : (ds.map (·.messageID)).Nodup
  messages : ∀ d ∈ ds, ∃ m ∈ w.sqs.messages, m.id = d.messageID ∧ m.body = d.body ∧
    m.receipt = some d.receiptHandle ∧ m.visible = false
  apart : ∀ d ∈ ds, ∀ job ∈ jobs, d.body.map (·.id) ≠ some job.id

section
variable {worker : String} {jobs : List Job} {w : World}

theorem Stocked.setJob (h : Stocked w) {id : String} {r : JobRecord} (hr : r.id = id) :
    Stocked (w.setJob id r) := by
  refine ⟨h.sound, fun i r' hr' => ?_, h.oneEach⟩
  by_cases hi : i = id
  · subst hi
    rw [World.setJob, AList.lookup_insert] at hr'
    rw [← Option.some.inj hr']
    exact hr
  · rw [World.setJob, AList.lookup_insert_ne hi] at hr'
    exact h.named i r' hr'

/-- The record of a job that has not been collected may be written. -/
theorem Collected.setJob (h : Collected worker jobs w) {id : String} {r : JobRecord} (hr : r.id = id)
    (hid : ∀ job ∈ jobs, job.id ≠ id) : Collected worker jobs (w.setJob id r) := by
  refine ⟨h.toStocked.setJob hr, h.nodup, fun job hj => ?_⟩
  obtain ⟨r', m, hm⟩ := h.handed job hj
  have hkept : (w.setJob id r).store.jobs.lookup job.id = some r' := by
    rw [World.setJob, AList.lookup_insert_ne (hid job hj)]
    exact hm.stored
  exact ⟨r', m, { hm with stored := hkept }⟩

/-- A message that is not of a collected job may be deleted. -/
theorem Collected.drop (h : Collected worker jobs w) {p : Message → Bool}
    (hp : ∀ job ∈ jobs, ∀ m ∈ w.sqs.messages, m.jobID = some job.id → p m = true) :
    Collected worker jobs (w.setSqs (w.sqs.keepMessages p)) := by
  refine ⟨⟨h.sound.filter p, h.named, fun id => ?_⟩, h.nodup, fun job hj => ?_⟩
  · have hof : (w.sqs.keepMessages p).messagesOf id = _ := SqsState.messagesOf_filter p id
    have hle : ((w.sqs.keepMessages p).messagesOf id).length ≤ (w.sqs.messagesOf id).length := by
      rw [hof]
      exact List.length_filter_le _ _
    exact hle.trans (h.oneEach id)
  · obtain ⟨r, m, hm⟩ := h.handed job hj
    exact ⟨r, m, { hm with message := List.mem_filter.mpr ⟨hm.message, hp job hj m hm.message hm.about⟩ }⟩

theorem visibleIDs_drop (p : Message → Bool) (q : SqsState) :
    (q.keepMessages p).visibleIDs.length ≤ q.visibleIDs.length := by
  refine List.Sublist.length_le (List.Sublist.map _ ?_)
  exact List.filter_sublist.filter _

/-- One more delivery has been handled without a job. -/
theorem Unhandled.skip {d : Delivery} {ds : List Delivery} (h : Unhandled (d :: ds) jobs w) :
    Unhandled ds jobs w :=
  ⟨(List.nodup_cons.mp h.ids).2, fun d' hd => h.messages d' (List.mem_cons_of_mem _ hd),
    fun d' hd => h.apart d' (List.mem_cons_of_mem _ hd)⟩

/-- The handle of a delivery deletes its own message only. -/
theorem Unhandled.own {d : Delivery} {ds : List Delivery} (h : Unhandled (d :: ds) jobs w)
    (hq : w.sqs.Sound) {m : Message} (hm : m ∈ w.sqs.messages)
    (hr : m.receipt = some d.receiptHandle) : m.id = d.messageID ∧ m.body = d.body := by
  obtain ⟨m', hm', hid, hbody, hr', -⟩ := h.messages d List.mem_cons_self
  have hsame : m = m' := hq.unique hm hm' <|
    (hq.receipts m hm _ hr).symm.trans (hq.receipts m' hm' _ hr')
  rw [hsame]
  exact ⟨hid, hbody⟩

/-- Two deliveries of one receive are about different jobs. -/
theorem Unhandled.distinct {d d' : Delivery} {ds : List Delivery} (h : Unhandled (d :: ds) jobs w)
    (hq : w.sqs.OneEach) (hd : d' ∈ ds) {job : Job} (hbody : d.body = some job) :
    d'.body.map (·.id) ≠ some job.id := by
  intro he
  obtain ⟨m, hm, hid, hb, -⟩ := h.messages d List.mem_cons_self
  obtain ⟨m', hm', hid', hb', -⟩ := h.messages d' (List.mem_cons_of_mem _ hd)
  have hjob : m.jobID = some job.id := by
    rw [Message.jobID, hb, hbody]
    rfl
  have hsame : m = m' := hq.unique hm hjob hm' (by rw [Message.jobID, hb', he])
  refine (List.nodup_cons.mp h.ids).1 (List.mem_map.mpr ⟨d', hd, ?_⟩)
  rw [← hid', ← hsame]
  exact hid

end

/-! ## One message -/

section
variable {cfg : Config} {ρ : Rules} {worker : String} {now : Time} {count : Int} {w : World}

/-- What the handling of deliveries leaves. -/
structure Gathers (worker : String) (jobs : List Job) (ds : List Delivery) (w w' : World) : Prop where
  visible : w'.sqs.visibleIDs.length ≤ w.sqs.visibleIDs.length
  collected : Collected worker jobs w'
  unhandled : Unhandled ds jobs w'

/-- No job has come of the delivery. -/
theorem Gathers.skip {jobs : List Job} {ds : List Delivery} {w' : World}
    (hv : w'.sqs.visibleIDs.length ≤ w.sqs.visibleIDs.length) (hc : Collected worker jobs w')
    (hd : Unhandled ds jobs w') : Gathers worker (jobs ++ (none : Option Job).toList) ds w w' := by
  rw [Option.toList_none, List.append_nil]
  exact ⟨hv, hc, hd⟩

theorem fetchMessage_gathers {url : String} {d : Delivery} {ds : List Delivery} {jobs : List Job}
    (hc : Collected worker jobs w) (hd : Unhandled (d :: ds) jobs w) :
    wp ρ.env.every (fetchMessage cfg now worker url d)
      (fun a w' => Gathers worker (jobs ++ a.toList) ds w w') w := by
  have hskip : Gathers worker (jobs ++ (none : Option Job).toList) ds w w :=
    .skip (le_refl _) hc hd.skip
  rw [fetchMessage]
  split
  · exact hskip
  · rename_i job hbody
    have hid : ∀ j ∈ jobs, j.id ≠ job.id := fun j hj he =>
      hd.apart d List.mem_cons_self j hj (by rw [hbody, he]; rfl)
    rw [wp_ite]
    split
    · -- the record may have been discarded, the message may be gone
      have hdelete : ∀ w₁, w₁.sqs = w.sqs → Collected worker jobs w₁ →
          wp ρ.env.every (do let _ ← sqs (.deleteMessage url d.receiptHandle); return none)
            (fun a w' => Gathers worker (jobs ++ a.toList) ds w w') w₁ := by
        intro w₁ hsqs hc₁
        have hd₁ : Unhandled (d :: ds) jobs w₁ := ⟨hd.ids, by rw [hsqs]; exact hd.messages, hd.apart⟩
        rw [wp_bind]
        refine wp_sqs_faulty rfl (fun _ _ h => by cases h) (fun msg => ?_) ?_
        · exact .skip (by rw [hsqs]) hc₁ hd₁.skip
        · simp only [SqsCall.run, wp_pure, SqsState.delete_eq]
          refine .skip ?_ (hc₁.drop fun j hj m hm hjob => ?_)
            ⟨hd₁.skip.ids, fun d' hd' => ?_, hd₁.skip.apart⟩
          · rw [← hsqs]
            exact visibleIDs_drop _ _
          · refine decide_eq_true fun hboth => hid j hj ?_
            have hown := (hd₁.own hc₁.sound hm hboth.2).2
            rw [Message.jobID, hown, hbody] at hjob
            exact (Option.some.inj hjob).symm
          · obtain ⟨m, hm, hmid, hmbody, hmr, hv⟩ := hd₁.skip.messages d' hd'
            refine ⟨m, List.mem_filter.mpr ⟨hm, ?_⟩, hmid, hmbody, hmr, hv⟩
            refine decide_eq_true fun hboth => ?_
            have hown := (hd₁.own hc₁.sound hm hboth.2).1
            exact (List.nodup_cons.mp hd₁.ids).1 (List.mem_map.mpr ⟨d', hd', hmid.symm.trans hown⟩)
      rw [wp_bind]
      refine wp_updateJobState_any (fun e => hdelete w rfl hc) fun r hr => ?_
      exact hdelete _ rfl (hc.setJob (JobRecord.moved_id .. |>.trans (hc.named _ r hr)) hid)
    · rw [wp_bind]
      refine wp_updateJobState_any (fun e => hskip) fun r hr => ?_
      have hrid : (r.moved .active (activeUpdates cfg now worker d)).id = job.id :=
        (JobRecord.moved_id ..).trans (hc.named _ r hr)
      have hc₁ := hc.setJob hrid hid
      simp only
      rw [wp_bind]
      refine wp_getJob_any (fun e => ?_) fun r' hr' => ?_
      · exact .skip (le_refl _) hc₁ ⟨hd.skip.ids, hd.skip.messages, hd.skip.apart⟩
      · rw [World.setJob, AList.lookup_insert] at hr'
        obtain rfl := Option.some.inj hr'
        obtain ⟨m, hm, -, hmbody, hmr, hv⟩ := hd.messages d List.mem_cons_self
        refine ⟨le_refl _, ⟨hc₁.toStocked, ?_, fun j hj => ?_⟩, hd.skip.ids, hd.skip.messages, ?_⟩
        · rw [List.map_append, List.nodup_append]
          refine ⟨hc.nodup, List.nodup_singleton _, fun i hi i' hi' => ?_⟩
          obtain ⟨j, hj, rfl⟩ := List.mem_map.mp hi
          rw [List.mem_singleton.mp hi']
          exact fun he => hid j hj (he.trans hrid)
        · rcases List.mem_append.mp hj with hj | hj
          · exact hc₁.handed j hj
          · obtain rfl := List.mem_singleton.mp hj
            refine ⟨_, m, ?_, rfl, rfl, rfl, hm, ?_, hv, d.receiptHandle, hmr, rfl⟩
            · have hlook : (recordToJob (r.moved .active (activeUpdates cfg now worker d))).id =
                  job.id := hrid
              rw [hlook, World.setJob, AList.lookup_insert]
            · rw [Message.jobID, hmbody, hbody]
              exact congrArg some hrid.symm
        · intro d' hd' j hj
          rcases List.mem_append.mp hj with hj | hj
          · exact hd.skip.apart d' hd' j hj
          · obtain rfl := List.mem_singleton.mp hj
            have hne := hd.distinct hc.oneEach hd' hbody
            exact fun he => hne (he.trans (congrArg some hrid))

/-- What a Fetch has reached: `jobs` are collected, not too many, and no more
messages can be received than at its start. -/
structure Reaches (worker : String) (count : Int) (jobs : List Job) (w w' : World) : Prop where
  length : (jobs.length : Int) ≤ count
  visible : w'.sqs.visibleIDs.length ≤ w.sqs.visibleIDs.length
  collected : Collected worker jobs w'

/-- The messages of one receive. -/
theorem fetchMessages_reaches {url : String} {ds : List Delivery} {jobs : List Job}
    (hlen : (jobs.length : Int) ≤ count) (hc : Collected worker jobs w) (hd : Unhandled ds jobs w) :
    wp ρ.env.every (fetchMessages cfg now worker url count ds jobs)
      (fun jobs' w' => Reaches worker count jobs' w w') w := by
  induction ds generalizing w jobs with
  | nil => exact ⟨hlen, le_refl _, hc⟩
  | cons d ds ih =>
    rw [fetchMessages, wp_ite]
    split
    · exact ⟨hlen, le_refl _, hc⟩
    · rename_i hmore
      rw [wp_bind]
      refine wp_mono (Env.every_mono _) _ (fetchMessage_gathers hc hd) fun a w₁ hg => ?_
      have hrest : wp ρ.env.every (fetchMessages cfg now worker url count ds (jobs ++ a.toList))
          (fun jobs' w' => Reaches worker count jobs' w₁ w') w₁ := by
        refine ih ?_ hg.collected hg.unhandled
        have hone : a.toList.length ≤ 1 := by cases a <;> simp
        rw [List.length_append]
        push_cast
        omega
      have hfrom : ∀ jobs' w', Reaches worker count jobs' w₁ w' → Reaches worker count jobs' w w' :=
        fun _ _ h => ⟨h.length, h.visible.trans hg.visible, h.collected⟩
      cases a with
      | none =>
        rw [Option.toList_none, List.append_nil] at hrest
        exact wp_mono (Env.every_mono _) _ hrest hfrom
      | some job => exact wp_mono (Env.every_mono _) _ hrest hfrom

/-! ## One receive -/

theorem Collected.redriven {jobs : List Job} {w' : World} (hc : Collected worker jobs w)
    (h : Redriven w w') : Collected worker jobs w' := by
  obtain ⟨policies, rfl⟩ := h
  refine ⟨⟨⟨hc.sound.nodup, hc.sound.fresh, hc.sound.receipts⟩, hc.named, hc.oneEach⟩, hc.nodup,
    fun job hj => ?_⟩
  obtain ⟨r, m, hm⟩ := hc.handed job hj
  exact ⟨r, m, { hm with }⟩

theorem Redriven.visibleIDs {w' : World} (h : Redriven w w') :
    w'.sqs.visibleIDs = w.sqs.visibleIDs := by
  obtain ⟨policies, rfl⟩ := h
  rfl

/-- What is received is hidden, and none of it has been collected. -/
theorem Collected.receive {jobs : List Job} (hc : Collected worker jobs w) {vis : Int}
    (hvis : 0 < vis) {url : String} {max : Nat} {ids : List MessageId}
    (hpick : w.sqs.mayPick url max ids = true) :
    Collected worker jobs (w.setSqs (w.sqs.receive vis ids).2) ∧
      Unhandled (w.sqs.receive vis ids).1 jobs (w.setSqs (w.sqs.receive vis ids).2) := by
  obtain ⟨hnd, hin⟩ := SqsState.mayPick_visible hpick
  have hr := SqsState.receive_spec vis hnd hc.sound
  have hone : (w.sqs.receive vis ids).2.OneEach := fun id => by
    have hle := (SqsState.receive_messagesOf (q := w.sqs) vis ids id).length_le
    rw [List.length_map, List.length_map] at hle
    exact hle.trans (hc.oneEach id)
  have hhanded : ∀ job ∈ jobs, ∃ r m, m.id ∉ ids ∧
      GivenTo worker job r m (w.setSqs (w.sqs.receive vis ids).2) := by
    intro job hj
    obtain ⟨r, m, hm⟩ := hc.handed job hj
    have hnot : m.id ∉ ids := fun hid => hc.sound.hidden hm.message hm.hidden (hin _ hid)
    exact ⟨r, m, hnot, { hm with message := SqsState.receive_other vis hm.message hnot }⟩
  refine ⟨⟨⟨hr.sound, hc.named, hone⟩, hc.nodup, fun job hj => ?_⟩, ?_, fun d hd => ?_, ?_⟩
  · obtain ⟨r, m, -, hm⟩ := hhanded job hj
    exact ⟨r, m, hm⟩
  · exact hr.picked.nodup hnd
  · obtain ⟨m, hm, hid, hbody, hrec⟩ := hr.deliveries d hd
    refine ⟨m, hm, hid, hbody, hrec, Bool.eq_false_iff.mpr fun hv => ?_⟩
    have hleft : m.id ∈ (w.sqs.receive vis ids).2.visibleIDs :=
      SqsState.mem_visibleIDs.mpr ⟨m, hm, hv, rfl⟩
    rw [SqsState.receive_visibleIDs hvis, List.mem_filter, hid] at hleft
    exact of_decide_eq_true hleft.2 (hr.picked.subset (List.mem_map_of_mem hd))
  · intro d hd job hj he
    obtain ⟨r, m', hnot, hm'⟩ := hhanded job hj
    obtain ⟨m, hm, hid, hbody, -⟩ := hr.deliveries d hd
    have hsame : m = m' := hone.unique hm (by rw [Message.jobID, hbody, he]) hm'.message hm'.about
    rw [← hsame, hid] at hnot
    exact hnot (hr.picked.subset (List.mem_map_of_mem hd))

end

/-! ## The loops -/

section
variable {cfg : Config} {ρ : Rules} {worker : String} {now : Time} {count : Int} {w w' : World}

/-- A receive that finds something hides it. -/
theorem wp_receive_strict {url : String} {max : Nat} {vis : Int} (hvis : vis ≠ 0)
    {Q : Except AwsError (List Delivery) → World → Prop} (herr : ∀ e, Q (.error e) w)
    (hok : 0 < vis → ∀ ids, w.sqs.mayPick url max ids = true →
      Q (.ok (w.sqs.receive vis ids).1) (w.setSqs (w.sqs.receive vis ids).2)) :
    wp ρ.strictEnv.every (sqs (.receiveMessage url max vis)) Q w := by
  intro r w' he
  rw [Rules.strictEnv] at he
  split at he
  · obtain ⟨⟨msg, rfl⟩, rfl⟩ := he
    exact herr _
  · have hpos : 0 < vis := by omega
    have hany : wp ρ.env.every (sqs (.receiveMessage url max vis)) Q w :=
      wp_receive_any herr (hok hpos)
    exact hany r w' he

/-- What the loops come to: to an end, with enough receives, and no further than
they should. -/
def ReachesEnd (worker : String) (count : Int) (fuel : Nat) (w : World) (a : Option (List Job))
    (w' : World) : Prop :=
  (w.sqs.visibleIDs.length < fuel → a ≠ none) ∧ ∀ jobs, a = some jobs → Reaches worker count jobs w w'

/-- A loop that ends where it is. -/
theorem reaches_here {fuel : Nat} {jobs : List Job} (hlen : (jobs.length : Int) ≤ count)
    (hle : w'.sqs.visibleIDs.length ≤ w.sqs.visibleIDs.length) (hc : Collected worker jobs w') :
    ReachesEnd worker count fuel w (some jobs) w' :=
  ⟨fun _ => Option.some_ne_none _, fun _ h => Option.some.inj h ▸ ⟨hlen, hle, hc⟩⟩

namespace ReachesEnd
variable {fuel fuel' : Nat} {a : Option (List Job)} {w₀ : World}

/-- A loop that has come this far, and goes on. -/
theorem further (h : ReachesEnd worker count fuel' w a w')
    (hle : w.sqs.visibleIDs.length ≤ w₀.sqs.visibleIDs.length)
    (hfuel : w₀.sqs.visibleIDs.length < fuel → w.sqs.visibleIDs.length < fuel') :
    ReachesEnd worker count fuel w₀ a w' := by
  refine ⟨fun hlt => h.1 (hfuel hlt), fun jobs hj => ?_⟩
  have hr := h.2 jobs hj
  exact ⟨hr.length, hr.visible.trans hle, hr.collected⟩

theorem redriven (hw : Redriven w w') (h : ReachesEnd worker count fuel w₀ a w) :
    ReachesEnd worker count fuel w₀ a w' := by
  refine ⟨h.1, fun jobs hj => ?_⟩
  have hr := h.2 jobs hj
  exact ⟨hr.length, by rw [hw.visibleIDs]; exact hr.visible, hr.collected.redriven hw⟩

/-- What follows a stretch that does not depend on the policies. -/
theorem rest {α : Type} {f : α → M (Option (List Job))} {a : α} (hw : Redriven w w')
    (h : wp (ρ.strictEnv.after Redriven).every (f a) (ReachesEnd worker count fuel w₀) w) :
    wp (ρ.strictEnv.after Redriven).every (f a) (ReachesEnd worker count fuel w₀) w' :=
  wp_after_silent .trans (fun hw h => redriven hw h) hw h

end ReachesEnd

/-- A receive that finds something hides it, whatever the policies have become. -/
theorem wp_receive_behind {url : String} {max : Nat} {vis : Int} (hvis : vis ≠ 0)
    {Q : Except AwsError (List Delivery) → World → Prop}
    (herr : ∀ e w₁, Redriven w w₁ → Q (.error e) w₁)
    (hok : ∀ w₁, Redriven w w₁ → 0 < vis → ∀ ids, w₁.sqs.mayPick url max ids = true →
      Q (.ok (w₁.sqs.receive vis ids).1) (w₁.setSqs (w₁.sqs.receive vis ids).2)) :
    wp (ρ.strictEnv.after Redriven).every (sqs (.receiveMessage url max vis)) Q w :=
  fun r w' ⟨w₁, hw, he⟩ => wp_receive_strict hvis (fun e => herr e w₁ hw) (hok w₁ hw) r w' he

theorem fetchMessages_overlooks (cfg : Config) (now : Time) (worker : String) (count : Int)
    (url : String) (ds : List Delivery) (jobs : List Job) :
    (fetchMessages cfg now worker url count ds jobs).Only Call.overlooks :=
  only_fetchMessages cfg now worker count (fun _ => trivial) (fun _ _ _ => trivial)
    (fun _ _ _ _ => trivial) (fun _ _ => trivial) url ds jobs

theorem isQueuePaused_overlooks (queue : String) : (isQueuePaused queue).Only Call.overlooks := by
  refine Prog.only_bind (Prog.only_perform trivial) fun a => ?_
  split <;> exact Prog.only_pure _

theorem getOrCreateQueueURL_overlooks (cfg : Config) (queue : String) :
    (getOrCreateQueueURL cfg queue).Only Call.overlooks :=
  only_queueURL cfg queue trivial (fun _ => trivial) (fun _ => trivial) fun _ => trivial

/-- **The receive loop of a queue**: what it ends with has been collected, and as
many receives as there are messages to be received, and one more, are enough. -/
theorem fetchQueue_reaches {url : String} {visSec : Int} (hvis : visSec ≠ 0) (fuel : Nat)
    {jobs : List Job} (hlen : (jobs.length : Int) ≤ count) (hc : Collected worker jobs w) :
    wp (ρ.strictEnv.after Redriven).every (fetchQueue cfg now worker url count visSec fuel jobs)
      (ReachesEnd worker count fuel w) w := by
  induction fuel generalizing w jobs with
  | zero =>
    rw [fetchQueue]
    split
    · exact ⟨fun h => absurd h (Nat.not_lt_zero _), fun _ h => by cases h⟩
    · exact reaches_here hlen (le_refl _) hc
  | succ fuel ih =>
    rw [fetchQueue, wp_ite]
    split
    · rw [wp_bind]
      refine wp_receive_behind hvis (fun e w₁ hw => ?_) fun w₁ hw hpos ids hpick => ?_
      · exact reaches_here hlen (by rw [hw.visibleIDs]) (hc.redriven hw)
      obtain ⟨hc₁, hd₁⟩ := (hc.redriven hw).receive hpos hpick
      have hle : (w₁.sqs.receive visSec ids).2.visibleIDs.length ≤ w.sqs.visibleIDs.length := by
        rw [SqsState.receive_visibleIDs hpos, hw.visibleIDs]
        exact List.length_filter_le _ _
      cases hr : (w₁.sqs.receive visSec ids).1 with
      | nil => exact reaches_here hlen hle hc₁
      | cons d ds =>
        -- a message was received, so there is one less
        have hless : (w₁.sqs.receive visSec ids).2.visibleIDs.length < w.sqs.visibleIDs.length := by
          obtain ⟨hnd, hin⟩ := SqsState.mayPick_visible hpick
          have hpicked := (SqsState.receive_spec visSec hnd (hc.redriven hw).sound).picked
          rw [hr] at hpicked
          have hd : d.messageID ∈ ids := hpicked.subset List.mem_cons_self
          rw [← hw.visibleIDs]
          exact SqsState.receive_visible_lt hpos hd (hin _ hd)
        rw [hr] at hd₁
        simp only
        rw [wp_bind]
        refine wp_overlooks (fetchMessages_overlooks cfg now worker count url _ jobs) ReachesEnd.rest ?_
        refine wp_mono (Env.every_mono _) _ (fetchMessages_reaches hlen hc₁ hd₁) fun jobs₁ w₂ h₂ => ?_
        refine wp_mono (Env.every_mono _) _ (ih h₂.length h₂.collected) fun a w₃ h₃ => ?_
        exact h₃.further (h₂.visible.trans hle) fun hfuel =>
          lt_of_le_of_lt h₂.visible (lt_of_lt_of_le hless (Nat.le_of_lt_succ hfuel))
    · exact reaches_here hlen (le_refl _) hc

/-- Opening a queue keeps what has been collected. -/
theorem Collected.openQueue {jobs : List Job} (hc : Collected worker jobs w) (queue : String) :
    Collected worker jobs (w.openQueue cfg queue) := by
  have hmsgs : (w.openQueue cfg queue).sqs.messages = w.sqs.messages :=
    World.openQueue_messages cfg w queue
  refine ⟨⟨?_, ?_, fun id => ?_⟩, hc.nodup, fun job hj => ?_⟩
  · refine ⟨by rw [hmsgs]; exact hc.sound.nodup, ?_, by rw [hmsgs]; exact hc.sound.receipts⟩
    rw [hmsgs, World.openQueue_nextMessage]
    exact hc.sound.fresh
  · have hstore : (w.openQueue cfg queue).store = w.store := World.openQueue_store cfg w queue
    rw [World.NamedJobs, hstore]
    exact hc.named
  · rw [World.openQueue_messagesOf]
    exact hc.oneEach id
  · obtain ⟨r, m, hm⟩ := hc.handed job hj
    refine ⟨r, m, { hm with stored := ?_, message := ?_ }⟩
    · rw [World.openQueue_store]
      exact hm.stored
    · rw [hmsgs]
      exact hm.message

/-- The queues, one after the other. -/
theorem fetchQueues_reaches {visSec : Int} (hvis : visSec ≠ 0) (fuel : Nat) (queues : List String)
    {jobs : List Job} (hlen : (jobs.length : Int) ≤ count) (hc : Collected worker jobs w) :
    wp (ρ.strictEnv.after Redriven).every (fetchQueues cfg fuel now worker count visSec queues jobs)
      (ReachesEnd worker count fuel w) w := by
  induction queues generalizing w jobs with
  | nil => exact reaches_here hlen (le_refl _) hc
  | cons queue queues ih =>
    rw [fetchQueues, wp_ite]
    split
    · exact reaches_here hlen (le_refl _) hc
    · rw [wp_bind]
      refine wp_overlooks (isQueuePaused_overlooks queue) ReachesEnd.rest ?_
      refine wp_isQueuePaused_any fun paused => ?_
      rw [wp_ite]
      split
      · exact ih hlen hc
      · rw [wp_bind]
        refine wp_overlooks (getOrCreateQueueURL_overlooks cfg queue) ReachesEnd.rest ?_
        refine wp_getOrCreateQueueURL_any (fun e => ih hlen hc) ?_
        have hopen : (w.openQueue cfg queue).sqs.visibleIDs = w.sqs.visibleIDs := by
          rw [SqsState.visibleIDs, World.openQueue_messages]
          rfl
        simp only
        rw [wp_bind]
        refine wp_mono (Env.every_mono _) _ (fetchQueue_reaches hvis fuel hlen (hc.openQueue queue)) ?_
        rintro a w₁ ⟨hends₁, ha₁⟩
        rw [hopen] at hends₁
        cases a with
        | none => exact ⟨fun hfuel => absurd rfl (hends₁ hfuel), fun _ h => by cases h⟩
        | some jobs₁ =>
          have h₁ := ha₁ jobs₁ rfl
          have hle₁ : w₁.sqs.visibleIDs.length ≤ w.sqs.visibleIDs.length := hopen ▸ h₁.visible
          refine wp_mono (Env.every_mono _) _ (ih h₁.length h₁.collected) fun a w₂ h₂ => ?_
          exact h₂.further hle₁ (lt_of_le_of_lt hle₁)
end

/-! ## The contract of a Fetch -/

/-- What a Fetch returns: at most `count` different jobs, each stored as the
worker's. -/
structure FetchResult (worker : String) (count : Int) (jobs : List Job) (w : World) : Prop where
  length : (jobs.length : Int) ≤ count
  nodup : (jobs.map (·.id)).Nodup
  handed : ∀ job ∈ jobs, ∃ r m, GivenTo worker job r m w

/-- A number of receives is enough for every run to come to its end, and the
end is right, whatever the goroutines do behind it. -/
def FetchEnds (cfg : Config) (ρ : Rules) (w : World) (queues : List String) (count : Int)
    (worker : String) (ms : Int) : Prop :=
  ∃ n, ∀ fuel, n ≤ fuel → wp (ρ.behind cfg).every (fetch cfg fuel queues count worker ms)
    (fun a x => ∃ jobs, a = some jobs ∧ FetchResult worker count jobs x.1) (w, w.goroutines cfg)

section
variable {cfg : Config} {ρ : Rules} {worker : String} {count : Int} {queues : List String} {w : World}

/-- What the queues give together, with any number of receives. -/
theorem fetch_reaches {ms : Int} (hvis : visTimeoutSec cfg ms ≠ 0) (hcount : 1 ≤ count) (hw : Stocked w)
    (fuel : Nat) : wp (ρ.strictEnv.after Redriven).every (fetch cfg fuel queues count worker ms)
      (fun a w' => (w.sqs.visibleIDs.length < fuel → a ≠ none) ∧
        ∀ jobs, a = some jobs → FetchResult worker count jobs w') w := by
  have hlen : (([] : List Job).length : Int) ≤ count := by
    rw [List.length_nil]
    exact le_trans (by decide) hcount
  have hends : wp (ρ.strictEnv.after Redriven).every (fetch cfg fuel queues count worker ms)
      (ReachesEnd worker count fuel w) w := by
    rw [fetch, wp_bind]
    refine wp_overlooks (Prog.only_perform trivial) ReachesEnd.rest ?_
    refine wp_timeNow fun t _ => ?_
    have hnone : Collected worker [] (w.setClock t) :=
      ⟨⟨hw.sound, hw.named, hw.oneEach⟩, List.nodup_nil, fun _ hj => by cases hj⟩
    refine wp_mono (Env.every_mono _) _ (fetchQueues_reaches hvis fuel queues hlen hnone) ?_
    exact fun a w' h => h.further (le_refl _) id
  refine wp_mono (Env.every_mono _) _ hends fun a w' h => ⟨h.1, fun jobs hj => ?_⟩
  have hr := h.2 jobs hj
  exact ⟨hr.length, hr.collected.nodup, hr.collected.handed⟩

theorem fetch_ends {ms : Int} (hvis : visTimeoutSec cfg ms ≠ 0) (hcount : 1 ≤ count) (hw : Stocked w) :
    FetchEnds cfg ρ w queues count worker ms := by
  refine ⟨w.sqs.visibleIDs.length + 1, fun fuel hfuel => wp_behind (Q := fun a w' =>
    ∃ jobs, a = some jobs ∧ FetchResult worker count jobs w') ?_⟩
  refine wp_mono (Env.every_mono _) _ (fetch_reaches hvis hcount hw fuel) ?_
  rintro a w' ⟨hends, ha⟩
  obtain ⟨jobs, rfl⟩ := Option.ne_none_iff_exists'.mp (hends hfuel)
  exact ⟨jobs, rfl, ha jobs rfl⟩

/-- A receive that asks for no negative timeout is not refused. -/
theorem wp_fetch_strict {ms : Int} (hvis : 0 ≤ visTimeoutSec cfg ms) (fuel : Nat)
    (Q : Option (List Job) → World → Prop) :
    wp ρ.strictEnv.every (fetch cfg fuel queues count worker ms) Q w ↔
      wp ρ.env.every (fetch cfg fuel queues count worker ms) Q w :=
  (fetch_calls cfg fuel queues count worker ms).wp_iff (fun c w r w' hc =>
    Rules.strictEnv_iff fun url max vis h => by
      subst h
      rw [show vis = visTimeoutSec cfg ms from hc]
      exact hvis) Q w

/-- Where SQS refuses nothing, and nothing goes on behind the Fetch, the rules
alone give the result. -/
theorem fetch_result {ms : Int} (hvis : 0 < visTimeoutSec cfg ms) (hcount : 1 ≤ count) (hw : Stocked w)
    (fuel : Nat) : wp ρ.env.every (fetch cfg fuel queues count worker ms)
      (fun a w' => ∀ jobs, a = some jobs → FetchResult worker count jobs w') w := by
  refine (wp_fetch_strict (le_of_lt hvis) fuel _).mp (wp_of_after Redriven.refl ?_)
  exact wp_mono (Env.every_mono _) _ (fetch_reaches (ne_of_gt hvis) hcount hw fuel) fun a w' h => h.2

/-! ## Without a visibility timeout -/

/-- One message that cannot be decoded, which no redrive policy takes away. -/
structure Undecodable (url : String) (w : World) : Prop where
  message : ∃ m, w.sqs.messages = [m] ∧ m.queueURL = url ∧ m.body = none ∧ m.visible = true
  kept : w.sqs.queues.lookup url = some none

/-- It is received, and can be received once more. -/
theorem Undecodable.receive {url : String} (h : Undecodable url w) (max : Nat) (hmax : 1 ≤ max) :
    ∃ d w', ({} : Rules).env (.sqs (.receiveMessage url max 0)) w (.ok [d]) w' ∧ d.body = none ∧
      Undecodable url w' := by
  obtain ⟨⟨m, hm, hurl, hbody, hv⟩, hkept⟩ := h
  have hfind : w.sqs.find m.id = some m := by simp [SqsState.find, hm]
  have hstays : w.sqs.exhausted m = false := by
    rw [SqsState.exhausted, hurl, hkept]
  have hreceive : w.sqs.receive 0 [m.id] =
      ([⟨m.id, m.body, SqsState.nextReceipt m⟩], w.sqs.deliver m.id 0) := by
    simp only [SqsState.receive, hfind, hstays, Bool.false_eq_true, if_false]
  have hpick : w.sqs.mayPick url max [m.id] = true := by
    simp [SqsState.mayPick, SqsState.keepsGroups, SqsState.groupOf, hfind, hm, hurl, hv, hmax]
  have hact : w.act (.deliver [m.id]) (.sqs (.receiveMessage url max 0)) =
      some (.ok [⟨m.id, m.body, SqsState.nextReceipt m⟩], w.setSqs (w.sqs.deliver m.id 0)) := by
    simp only [World.act, SqsState.act, hpick, if_true, hreceive]
    rfl
  refine ⟨_, _, Rules.env_choice (.deliver [m.id]) rfl hact, hbody, ?_, hkept⟩
  · refine ⟨_, by rw [World.setSqs, SqsState.deliver_eq, SqsState.mapMessages, hm]; rfl, ?_⟩
    rw [SqsState.deliverMessage, if_pos rfl]
    exact ⟨hurl, hbody, rfl⟩

/-- It is received again and again. -/
theorem fetchQueue_forever {now : Time} {url : String} (fuel : Nat) {jobs : List Job}
    (hlen : (jobs.length : Int) < count) (h : Undecodable url w)
    {Q : Option (List Job) → World → Prop}
    (hrun : wp ({} : Rules).env.every (fetchQueue cfg now worker url count 0 fuel jobs) Q w) :
    ∃ w', Q none w' := by
  induction fuel generalizing w with
  | zero =>
    rw [fetchQueue, if_pos hlen] at hrun
    exact ⟨w, hrun⟩
  | succ fuel ih =>
    have hbatch : 0 < batchSize count jobs := by
      rw [batchSize]
      omega
    rw [fetchQueue, wp_ite, if_pos ⟨hlen, hbatch⟩, wp_bind] at hrun
    obtain ⟨d, w', he, hbody, hw'⟩ := h.receive (batchSize count jobs).toNat (by omega)
    have hnext : wp ({} : Rules).env.every (fetchMessages cfg now worker url count [d] jobs >>=
        fun jobs => fetchQueue cfg now worker url count 0 fuel jobs) Q w' := hrun _ _ he
    rw [wp_bind, fetchMessages, if_neg (by omega), wp_bind, fetchMessage, hbody] at hnext
    exact ih hw' hnext

/-- A Fetch that comes to the queue of the message does not end, whatever the
number of receives. The queue has been opened before, so that no goroutine is
started. -/
theorem fetch_forever {queue url : String} {ms : Int} (hvis : visTimeoutSec cfg ms = 0)
    (hcount : 1 ≤ count) (h : Undecodable url w) (hopened : w.queueURLs.lookup queue = some url)
    (hopen : w.store.queues.lookup queue = none) :
    ¬ FetchEnds cfg {} w (queue :: queues) count worker ms := by
  rintro ⟨n, hn⟩
  have hrun := (wp_fetch_strict (le_of_eq hvis.symm) n _).mp (wp_of_spawning
    (Q := fun a w' => ∃ jobs, a = some jobs ∧ FetchResult worker count jobs w') (hn n (le_refl n)))
  rw [fetch, wp_bind] at hrun
  have htick : ({} : Rules).env (.proc .now) w w.clock (w.setClock w.clock) :=
    Rules.env_choice (.tick w.clock) (by simp [Rules.admits]) (if_pos (le_refl _))
  have hqueues : wp ({} : Rules).env.every (fetchQueues cfg n w.clock worker count
      (visTimeoutSec cfg ms) (queue :: queues) []) _ (w.setClock w.clock) := hrun _ _ htick
  have hzero : ¬ count ≤ (([] : List Job).length : Int) := by
    rw [List.length_nil]
    push_cast
    omega
  -- the queue is not paused, and its URL is known
  have hnone : (({} : Rules).faults) = false := rfl
  rw [hvis, fetchQueues, wp_ite, if_neg hzero, wp_bind, isQueuePaused, wp_bind,
    wp_dynamo hnone rfl] at hqueues
  have hpaused : (w.setClock w.clock).store.queues.lookup queue = none := hopen
  simp only [Store.run, hpaused] at hqueues
  have hurl : (w.setClock w.clock).urlOf cfg queue = url := by
    rw [World.urlOf, World.setClock, hopened]
    rfl
  have hsame : (w.setClock w.clock).openQueue cfg queue = w.setClock w.clock := by
    rw [World.openQueue, World.setClock, hopened]
  have hnext : wp ({} : Rules).env.every (getOrCreateQueueURL cfg queue >>= fun a => _) _
    (w.setClock w.clock) := hqueues
  rw [wp_bind, wp_getOrCreateQueueURL cfg hnone, hurl, hsame] at hnext
  simp only at hnext
  rw [wp_bind] at hnext
  have hthere : Undecodable url (w.setClock w.clock) := ⟨h.message, h.kept⟩
  obtain ⟨w', jobs, hno, -⟩ := fetchQueue_forever n (by rw [List.length_nil]; push_cast; omega) hthere hnext
  cases hno

/-- The queue has been opened, and nothing but one message is in it. -/
def openedWith (queue url : String) (limit : Option Nat) (body : Option Job) : World where
  sqs.messages := [{ id := 0, queueURL := url, body }]
  sqs.nextMessage := 1
  sqs.queues := (∅ : Table (Option Nat)).insert url limit
  queueURLs := (∅ : Table String).insert queue url

theorem stocked_openedWith (queue url : String) (limit : Option Nat) (body : Option Job) :
    Stocked (openedWith queue url limit body) := by
  refine ⟨⟨List.nodup_singleton _, fun m hm => ?_, fun m hm h hr => ?_⟩, fun _ _ hr => ?_, fun id => ?_⟩
  · rw [List.mem_singleton.mp hm]
    exact Nat.zero_lt_one
  · rw [List.mem_singleton.mp hm] at hr
    cases hr
  · cases hr
  · exact List.length_filter_le _ _

theorem fetch_forever_openedWith {queue : String} {ms : Int} (hvis : visTimeoutSec cfg ms = 0)
    (hcount : 1 ≤ count) :
    ¬ FetchEnds cfg {} (openedWith queue (sqsQueueName cfg queue) none none) (queue :: queues) count
      worker ms :=
  fetch_forever hvis hcount ⟨⟨_, rfl, rfl, rfl, rfl⟩, AList.lookup_insert _⟩ (AList.lookup_insert _) rfl

/-- The milliseconds a Fetch hides its messages for. -/
def effectiveVisTimeoutMs (cfg : Config) (ms : Int) : Int :=
  if ms = 0 then cfg.defaultVisibilityTimeoutMs else ms

theorem visTimeoutSec_eq_zero {ms : Int} (hms : 0 ≤ ms) :
    visTimeoutSec cfg ms = 0 ↔ 2 ^ 32 ∣ (effectiveVisTimeoutMs cfg ms).tdiv 1000 := by
  have hiff : ms ≤ 0 ↔ ms = 0 := by omega
  rw [visTimeoutSec, effectiveVisTimeoutMs]
  simp only [hiff, int32]
  exact Int.dvd_iff_bmod_eq_zero.symm

/-- **A Fetch ends, with at most `count` different jobs**, whatever is in the
queues and whatever the goroutines do: exactly when there is no queue to look at,
or its whole seconds of visibility timeout are not zero as an `int32`. -/
theorem fetch_ends_iff (cfg : Config) (queues : List String) (count : Int) (worker : String) (ms : Int)
    (hcount : 1 ≤ count) (hms : 0 ≤ ms) :
    (∀ ρ w, Stocked w → FetchEnds cfg ρ w queues count worker ms) ↔
      queues = [] ∨ ¬ 2 ^ 32 ∣ (effectiveVisTimeoutMs cfg ms).tdiv 1000 := by
  rw [← visTimeoutSec_eq_zero hms]
  constructor
  · intro h
    by_contra hno
    obtain ⟨hne, hzero⟩ := not_or.mp hno
    obtain ⟨queue, queues, rfl⟩ := List.exists_cons_of_ne_nil hne
    exact fetch_forever_openedWith (not_not.mp hzero) hcount (h {} _ (stocked_openedWith _ _ _ _))
  · rintro (rfl | hvis) ρ w hw
    · refine ⟨0, fun fuel _ => fun t x' _ => ⟨[], rfl, ?_, List.nodup_nil, fun _ hj => by cases hj⟩⟩
      rw [List.length_nil]
      exact le_trans (by decide) hcount
    · exact fetch_ends hvis hcount hw

end

/-- A job that has been pushed, and is available. -/
def pushedOnce : World :=
  (openedWith "default" "ojs-default" (some 3) (some demoJob)).setJob "j1"
    { id := "j1", state := .available, queue := "default" }

theorem stocked_pushedOnce : Stocked pushedOnce := (stocked_openedWith _ _ _ _).setJob rfl

theorem fetch_ends_iff_second : FetchEnds demo { faults := true } pushedOnce ["default"] 2 "w1" 1000 :=
  (fetch_ends_iff demo ["default"] 2 "w1" 1000 (by decide) (by decide)).mpr (.inr (by decide))
    _ _ stocked_pushedOnce

/-- Half a second is no whole second: the job is received again at once, and the
Fetch returns it twice. -/
theorem fetch_twice_half_second : ¬ ∀ (cfg : Config) (ρ : Rules) (w : World) (queues : List String)
    (count : Int) (worker : String) (ms : Int), 1 ≤ count → 0 ≤ ms → Stocked w →
    FetchEnds cfg ρ w queues count worker ms := by
  intro hall
  obtain ⟨n, hn⟩ := hall demo {} pushedOnce ["default"] 2 "w1" 500 (by decide) (by decide)
    stocked_pushedOnce
  have hwp := (wp_fetch_strict (by decide) (n + 3) _).mp (wp_of_spawning
    (Q := fun a w' => ∃ jobs, a = some jobs ∧ FetchResult "w1" 2 jobs w') (hn (n + 3) (Nat.le_add_right n 3)))
  have hrun : (script (Rules.act {}) ([.tick 0, .ok, .ok, .deliver [0], .ok, .ok, .ok, .deliver [0], .ok,
      .ok, .ok] : List Choice) (fetch demo (n + 3) ["default"] 2 "w1" 500) pushedOnce).map
        (fun x => x.1.map (·.map (·.id))) = some (some ["j1", "j1"]) := rfl
  obtain ⟨⟨a, w'⟩, hscript, ha⟩ := Option.map_eq_some_iff.mp hrun
  obtain ⟨jobs, rfl, hresult⟩ := wp_runs hwp (script_runs _ hscript)
  have hids : jobs.map (·.id) = ["j1", "j1"] := Option.some.inj ha
  have hnodup := hresult.nodup
  rw [hids] at hnodup
  exact absurd hnodup (by decide)

end OjsSqs
