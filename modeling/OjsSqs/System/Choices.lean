import OjsSqs.Calls.Possible
import OjsSqs.Queues.Names
import OjsSqs.System.Invariant
import Mathlib.Data.List.Sort

/-! # What an operation can do

SQS chooses which messages it hands out, a query which page it answers, and the
clock what it shows. Each lemma here makes such a choice and says what the
operation then does; where there is nothing to choose, the equation of the
method says it. -/
namespace OjsSqs
open Calls

variable {cfg : Config} {lib : CronLib} {ρ : Rules} {w : World} {id : String} {r : JobRecord}

/-- An operation that can return leaves a state the system can reach. -/
theorem possible_op {o : SystemOp} {P : World → Prop} (hfresh : o.Fresh w)
    (h : wp (ρ.reserving (o.inUse w)).env.may (o.prog cfg lib) (fun a w' => o.done a = true ∧ P w') w) :
    Possible (SystemStep cfg lib ρ) 1 w P := by
  obtain ⟨a, w', hr, hdone, hP⟩ := (wp_may_iff_runs _ _ _ _).mp h
  exact .single (.op o a hfresh hdone hr) hP

/-- An operation that needs no fuel. -/
theorem possible_return {o : SystemOp} {P : World → Prop} (hfresh : o.Fresh w)
    (hdone : ∀ a, o.done a = true)
    (h : wp (ρ.reserving (o.inUse w)).env.may (o.prog cfg lib) (fun _ => P) w) :
    Possible (SystemStep cfg lib ρ) 1 w P :=
  possible_op hfresh (wp_mono (Env.may_mono _) _ h fun a _ hP => ⟨hdone a, hP⟩)

/-! ## One message -/

namespace SqsState
variable {q : SqsState} {m : Message}

theorem Sound.find (hq : q.Sound) (hm : m ∈ q.messages) : q.find m.id = some m := by
  cases hf : q.find m.id with
  | none => exact absurd (decide_eq_true rfl) (List.find?_eq_none.mp hf m hm)
  | some m' =>
    obtain ⟨hm', hid⟩ := mem_of_find hf
    rw [hq.unique hm' hm hid]

/-- A receive that picks one message hands it out. -/
theorem Sound.receive_one (hq : q.Sound) (hm : m ∈ q.messages) (hx : q.exhausted m = false)
    (vis : Int) : q.receive vis [m.id] =
      ([⟨m.id, m.body, nextReceipt m⟩], q.deliver m.id vis) := by
  simp only [receive, hq.find hm, hx, Bool.false_eq_true, if_false]

theorem Sound.noneExhausted_one (hq : q.Sound) (hm : m ∈ q.messages) (hx : q.exhausted m = false) :
    q.noneExhausted [m.id] = true := by
  simp [noneExhausted, hq.find hm, hx]

/-- A standard queue may hand out any of its visible messages. -/
theorem mayPick_one (hstd : isFIFO m.queueURL = false) (hm : m ∈ q.messages) (hv : m.visible = true) :
    q.mayPick m.queueURL 1 [m.id] = true := by
  simp only [mayPick, keepsGroups, hstd, Bool.not_false, Bool.true_or, List.all_cons, List.all_nil,
    Bool.and_true, Bool.and_eq_true, List.any_eq_true, decide_eq_true_eq]
  exact ⟨⟨le_refl 1, List.nodup_singleton m.id⟩, m, hm, ⟨rfl, rfl⟩, hv⟩

theorem mayPick_nil (url : String) (max : Nat) (q : SqsState) : q.mayPick url max [] = true := by
  simp [mayPick, keepsGroups]

/-- A queue that was not there has no limit. -/
theorem exhausted_createQueue (url : String) : (q.createQueue url).exhausted m = q.exhausted m := by
  rw [createQueue]
  cases hq : q.queues.lookup url with
  | some limit => rfl
  | none =>
    simp only [exhausted]
    by_cases hu : m.queueURL = url
    · rw [hu, AList.lookup_insert, hq]
    · rw [AList.lookup_insert_ne hu]

/-- A message that was never received is exhausted where the limit is zero. -/
theorem exhausted_unreceived (hn : m.receiveCount = 0) :
    q.exhausted m = true ↔ q.queues.lookup m.queueURL = some (some 0) := by
  simp only [exhausted, hn]
  split
  · rename_i limit hlimit
    rw [hlimit, decide_eq_true_iff, Nat.le_zero, Option.some.injEq, Option.some.injEq]
  · rename_i hnone
    exact ⟨fun h => absurd h Bool.false_ne_true, fun h => absurd h (hnone 0)⟩

end SqsState

/-- The name of a queue is cut from one that has a hyphen where `.fifo` has
none, and no dot after it. -/
theorem isFIFO_sqsQueueName (hstd : cfg.useFIFO = false) (queue : String) :
    SqsState.isFIFO (sqsQueueName cfg queue) = false := by
  have hname : (sqsQueueName cfg queue).toList =
      cfg.queuePrefix.toList ++ ('-' :: (sanitizeQueueName queue).toList) := by
    simp [sqsQueueName, hstd]
  have hdot : '.' ∉ '-' :: (sanitizeQueueName queue).toList := by
    rw [toList_sanitizeQueueName]
    intro hin
    rcases List.mem_cons.mp hin with h | h
    · exact absurd h (by decide)
    · obtain ⟨c, -, hc⟩ := List.mem_map.mp h
      split at hc
      · exact absurd hc (by decide)
      · contradiction
  rw [SqsState.isFIFO, Bool.eq_false_iff]
  intro h
  rw [List.isSuffixOf_iff_suffix, hname] at h
  rcases List.suffix_or_suffix_of_suffix h (List.suffix_append _ _) with h' | h'
  · exact hdot (h'.subset (by decide))
  · exact absurd (h'.subset (List.mem_cons_self ..)) (by decide)

theorem World.openQueue_exhausted (cfg : Config) (queue : String) (w : World) (m : Message) :
    (w.openQueue cfg queue).sqs.exhausted m = w.sqs.exhausted m := by
  rw [World.openQueue]
  split
  · rfl
  · exact SqsState.exhausted_createQueue _

/-! ## Choices -/

/-- No time passes. -/
theorem may_timeNow {Q : Time → World → Prop} (h : Q w.clock w) : wp ρ.env.may timeNow Q w := by
  have hshow : ρ.mayShow w w.clock := ⟨le_refl _, fun _ => rfl⟩
  exact ⟨w.clock, w, Rules.env_tick hshow, h⟩

theorem may_getDueJobs {i : DueIndex} {nowMs : Int} {ids : List String}
    {Q : Except Error (List String) → World → Prop} (hpage : w.store.isDuePage i nowMs ids = true)
    (horder : w.store.inDueOrder i nowMs ids = true) (h : Q (.ok ids) w) :
    wp ρ.env.may (getDueJobs i nowMs) Q w := by
  have hadmit : ρ.admits w (.page ids) = true := by simp [Rules.admits, Choice.isFault]
  have hact : w.act (.page ids) (.dynamo (.queryDue i nowMs)) = some (.ok ids, w) := by
    simp only [World.act, Store.act, hpage, horder, Bool.and_self, if_true]
    rfl
  rw [getDueJobs, wp_bind]
  exact ⟨.ok ids, w, Rules.env_choice (.page ids) hadmit hact, h⟩

theorem may_receive {url : String} {max : Nat} {vis : Int} {ids : List MessageId}
    {Q : Except AwsError (List Delivery) → World → Prop} (hpick : w.sqs.mayPick url max ids = true)
    (hkept : w.sqs.noneExhausted ids = true)
    (h : Q (.ok (w.sqs.receive vis ids).1) (w.setSqs (w.sqs.receive vis ids).2)) :
    wp ρ.env.may (sqs (.receiveMessage url max vis)) Q w := by
  have hadmit : ρ.admits w (.deliver ids) = true := (Bool.or_eq_true _ _).mpr (.inr hkept)
  have hact : w.act (.deliver ids) (.sqs (.receiveMessage url max vis)) =
      some (.ok (w.sqs.receive vis ids).1, w.setSqs (w.sqs.receive vis ids).2) := by
    simp only [World.act, SqsState.act, hpick, if_true]
    rfl
  exact ⟨_, _, Rules.env_choice (.deliver ids) hadmit hact, h⟩

/-! ## Due jobs -/

namespace Store

/-- All the due jobs of an index, the earliest first. -/
def dueJobs (index : DueIndex) (nowMs : Int) (s : Store) : List String :=
  ((s.due index).keys.filter fun id => s.isDue index nowMs id).mergeSort
    fun a b => decide (s.dueAt index a ≤ s.dueAt index b)

variable (index : DueIndex) (nowMs : Int) (s : Store)

theorem mem_dueJobs : id ∈ s.dueJobs index nowMs ↔ s.isDue index nowMs id = true := by
  rw [dueJobs, List.mem_mergeSort, List.mem_filter]
  refine ⟨fun h => h.2, fun h => ⟨?_, h⟩⟩
  rw [isDue] at h
  split at h
  · rename_i ms hms
    exact AList.mem_keys.mp (AList.lookup_isSome.mp (by rw [hms]; rfl))
  · cases h

theorem isDuePage_dueJobs : s.isDuePage index nowMs (s.dueJobs index nowMs) = true := by
  refine (Bool.and_eq_true _ _).mpr ⟨decide_eq_true ?_, List.all_eq_true.mpr fun id hid => ?_⟩
  · exact (List.mergeSort_perm _ _).nodup_iff.mpr ((s.due index).nodupKeys.filter _)
  · exact (mem_dueJobs index nowMs s).mp hid

theorem inDueOrder_dueJobs : s.inDueOrder index nowMs (s.dueJobs index nowMs) = true := by
  refine (Bool.and_eq_true _ _).mpr ⟨decide_eq_true ?_, List.all_eq_true.mpr fun id _ => ?_⟩
  · have hsorted : (s.dueJobs index nowMs).Pairwise fun a b =>
        decide (s.dueAt index a ≤ s.dueAt index b) = true := by
      refine List.pairwise_mergeSort (fun _ _ _ hab hbc => ?_) (fun a b => ?_) _
      · exact decide_eq_true (le_trans (of_decide_eq_true hab) (of_decide_eq_true hbc))
      · simpa using le_total (s.dueAt index a) (s.dueAt index b)
    exact hsorted.imp of_decide_eq_true
  · cases hdue : s.isDue index nowMs id with
    | false => rfl
    | true => simp [(mem_dueJobs index nowMs s).mpr hdue]

end Store

namespace World

/-- What a promoter does with one due job. -/
def promoteDue (cfg : Config) (x : DueIndex) (w : World) (id : String) : World :=
  match w.store.jobs.lookup id with
  | none => w
  | some r => ((w.removeDue x id).setJob id (r.moved .available (promoteUpdates cfg w.clock))).sendJob
      cfg (promotedJob cfg w.clock r)

/-- What is done with another job leaves this one where it is: its record, its
messages and the limits of the queues. -/
structure Aside (cfg : Config) (id : String) (w w' : World) : Prop where
  record : w'.store.jobs.lookup id = w.store.jobs.lookup id
  clock : w'.clock = w.clock
  messages : w.sqs.messagesOf id ⊆ w'.sqs.messagesOf id
  exhausted : ∀ m, w'.sqs.exhausted m = w.sqs.exhausted m
  urls : ∀ queue, w'.urlOf cfg queue = w.urlOf cfg queue

namespace Aside
variable {w₁ w₂ w₃ : World}

theorem refl (w : World) : Aside cfg id w w := ⟨rfl, rfl, fun _ h => h, fun _ => rfl, fun _ => rfl⟩

theorem trans (h : Aside cfg id w₁ w₂) (h' : Aside cfg id w₂ w₃) : Aside cfg id w₁ w₃ :=
  ⟨h'.record.trans h.record, h'.clock.trans h.clock, fun _ hm => h'.messages (h.messages hm),
    fun m => (h'.exhausted m).trans (h.exhausted m), fun q => (h'.urls q).trans (h.urls q)⟩

theorem sendJob (job : Job) (w : World) : Aside cfg id w (w.sendJob cfg job) := by
  have hopen : Aside cfg id w (w.openQueue cfg job.queue) := by
    refine ⟨by rw [openQueue_store], openQueue_clock cfg w _, ?_, w.openQueue_exhausted cfg _, ?_⟩
    · rw [openQueue_messagesOf]
      exact fun _ h => h
    · exact openQueue_urlOf cfg w _
  rw [World.sendJob]
  cases encodeJob cfg job with
  | error e => exact hopen
  | ok body =>
    refine hopen.trans ⟨rfl, rfl, fun m hm => ?_, fun _ => rfl, fun _ => rfl⟩
    exact SqsState.send_messagesOf _ _ _ ▸ List.mem_append_left _ hm

theorem promoteDue (x : DueIndex) {k : String} (hk : k ≠ id) (w : World) :
    Aside cfg id w (w.promoteDue cfg x k) := by
  rw [World.promoteDue]
  split
  · exact refl w
  · rename_i r _
    have hmoved : Aside cfg id w
        ((w.removeDue x k).setJob k (r.moved .available (promoteUpdates cfg w.clock))) :=
      ⟨AList.lookup_insert_ne (Ne.symm hk), rfl, fun _ h => h, fun _ => rfl, fun _ => rfl⟩
    exact hmoved.trans (sendJob _ _)

theorem promoteAll (x : DueIndex) {ids : List String} (hids : id ∉ ids) (w : World) :
    Aside cfg id w (ids.foldl (World.promoteDue cfg x) w) := by
  induction ids generalizing w with
  | nil => exact refl w
  | cons k ids ih =>
    have hk : k ≠ id := (List.ne_of_not_mem_cons hids).symm
    exact (promoteDue x hk w).trans (ih (List.not_mem_of_not_mem_cons hids) _)

end Aside
end World

section
variable (hρ : ρ.faults = false)
include hρ

theorem may_isQueuePaused {name : String} {Q : Except Error Bool → World → Prop}
    (hopen : (w.store.queueItem name).paused = false)
    (h : ∀ a : Except Error Bool, a.toOption.getD false = false → Q a w) :
    wp ρ.env.may (isQueuePaused name) Q w := by
  cases hq : w.store.queues.lookup name with
  | none =>
    refine wp_may_of_eq (a := .error (.plain ("queue not found: " ++ name))) (fun Q => ?_) (h _ rfl)
    rw [isQueuePaused, wp_bind, wp_dynamo hρ rfl]
    simp only [Store.run, hq, wp_pure, World.setStore_store]
  | some item =>
    rw [Store.queueItem, hq] at hopen
    refine wp_may_of_eq (a := .ok item.paused) (fun Q => ?_) (h _ hopen)
    rw [isQueuePaused, wp_bind, wp_dynamo hρ rfl]
    simp only [Store.run, hq, wp_pure, World.setStore_store]

/-! ## A Fetch -/

/-- One delivery of a job that is stored. -/
theorem may_fetchMessage {now : Time} {worker url : String} {d : Delivery} {job : Job}
    {Q : Option Job → World → Prop} (hd : d.body = some job)
    (hr : w.store.jobs.lookup job.id = some r)
    (hlate : expired cfg now job = true → Q none
      ((w.setJob job.id (r.moved .discarded [])).setSqs (w.sqs.delete url d.receiptHandle)))
    (hout : expired cfg now job = false → Q (some (recordToJob
      (r.moved .active (activeUpdates cfg now worker d))))
      (w.setJob job.id (r.moved .active (activeUpdates cfg now worker d)))) :
    wp ρ.env.may (fetchMessage cfg now worker url d) Q w := by
  rw [fetchMessage, hd]
  simp only [wp_ite]
  split
  · rename_i hx
    rw [wp_bind]
    refine wp_may_of_eq (wp_updateJobState_some hρ hr) ?_
    rw [wp_bind]
    exact wp_may_of_eq (wp_sqs hρ rfl) (hlate hx)
  · rename_i hx
    rw [wp_bind]
    refine wp_may_of_eq (wp_updateJobState_some hρ hr) ?_
    simp only
    rw [wp_bind]
    refine wp_may_of_eq (wp_getJob_some hρ (World.setJob_lookup _ _)) ?_
    exact hout (Bool.eq_false_iff.mpr hx)

/-- A Fetch from the queue of a visible message: the worker gets the job, unless
the job is past its `expires_at`. -/
theorem may_fetch {queue worker : String} {vis : Int} {m : Message} {job : Job} (hq : w.sqs.Sound)
    (hstd : SqsState.isFIFO m.queueURL = false)
    (hopen : (w.store.queueItem queue).paused = false) (hm : m ∈ w.sqs.messages)
    (hurl : m.queueURL = w.urlOf cfg queue) (hb : m.body = some job) (hv : m.visible = true)
    (hx : w.sqs.exhausted m = false) (hr : w.store.jobs.lookup job.id = some r) :
    wp ρ.env.may (fetch cfg 2 [queue] 1 worker vis) (fun a w' => a.isSome = true ∧
      w'.clock = w.clock ∧ w'.dead job.id = w.dead job.id ∧
      ∃ r', w'.store.jobs.lookup job.id = some r' ∧
        (expired cfg w.clock job = true ∧ r' = r.moved .discarded [] ∨ ∃ d : Delivery,
          r' = r.moved .active (activeUpdates cfg w.clock worker d))) w := by
  have hq₁ : (w.openQueue cfg queue).sqs.Sound := by
    rw [World.openQueue]
    split
    · exact hq
    · exact SqsState.sound_createQueue _ hq
  have hm₁ : m ∈ (w.openQueue cfg queue).sqs.messages := by
    rw [World.openQueue_messages]
    exact hm
  have hx₁ : (w.openQueue cfg queue).sqs.exhausted m = false :=
    (World.openQueue_exhausted cfg queue w m).trans hx
  have hst : (w.openQueue cfg queue).store = w.store := w.openQueue_store cfg queue
  have hclock : (w.openQueue cfg queue).clock = w.clock := w.openQueue_clock cfg queue
  have hdead : (w.openQueue cfg queue).dead job.id = w.dead job.id := by
    rw [World.dead, hst, World.dead]
  have hpick : (w.openQueue cfg queue).sqs.mayPick (w.urlOf cfg queue) 1 [m.id] = true := by
    rw [← hurl]
    exact SqsState.mayPick_one hstd hm₁ hv
  rw [fetch, wp_bind]
  refine may_timeNow ?_
  rw [fetchQueues, if_neg (by decide), wp_bind]
  refine may_isQueuePaused hρ hopen fun a ha => ?_
  rw [ha, if_neg (by decide), wp_bind]
  refine wp_may_of_eq (wp_getOrCreateQueueURL cfg hρ) ?_
  simp only
  rw [wp_bind, fetchQueue, if_pos ⟨by decide, by decide⟩, wp_bind]
  generalize w.openQueue cfg queue = w₁ at hq₁ hm₁ hx₁ hst hclock hdead hpick
  refine may_receive hpick (hq₁.noneExhausted_one hm₁ hx₁) ?_
  rw [hq₁.receive_one hm₁ hx₁]
  simp only
  rw [wp_bind, fetchMessages, if_neg (by decide), wp_bind]
  refine may_fetchMessage hρ hb (r := r) (by rw [← hst] at hr; exact hr) (fun hlate => ?_) fun hout => ?_
  · -- nothing was handed out, so there is another receive, which finds nothing
    simp only
    rw [fetchMessages, wp_pure, fetchQueue, if_pos ⟨by decide, by decide⟩, wp_bind]
    refine may_receive (SqsState.mayPick_nil _ _ _) rfl ?_
    exact ⟨rfl, hclock, hdead, _, World.setJob_lookup _ _, .inl ⟨hlate, rfl⟩⟩
  · simp only
    rw [fetchMessages, wp_pure, fetchQueue, if_neg fun h => lt_irrefl (1 : Int) h.1]
    exact ⟨rfl, hclock, hdead, _, World.setJob_lookup _ _, .inr ⟨_, rfl⟩⟩

/-! ## Jobs that are sent again -/

/-- One turn of a promoter. -/
theorem may_promoteOne {x : DueIndex} {Q : Option Error → World → Prop}
    (h : ∀ err, Q err (w.promoteDue cfg x id)) : wp ρ.env.may (promoteOne cfg x id) Q w := by
  rw [promoteOne, wp_bind]
  cases hr : w.store.jobs.lookup id with
  | none =>
    rw [World.promoteDue, hr] at h
    exact wp_may_of_eq (wp_getJob_none hρ hr) (h _)
  | some r =>
    rw [World.promoteDue, hr] at h
    have hr₁ : (w.removeDue x id).store.jobs.lookup id = some r := hr
    refine wp_may_of_eq (wp_getJob_some hρ hr) ?_
    simp only
    rw [wp_bind]
    refine wp_may_of_eq (wp_removeDueJob hρ) ?_
    simp only
    rw [wp_bind]
    refine may_timeNow ?_
    rw [wp_bind]
    refine wp_may_of_eq (wp_updateJobState_some hρ hr₁) ?_
    simp only
    rw [wp_bind]
    refine wp_may_of_eq (wp_sendToSQS cfg hρ) ?_
    cases encodeJob cfg (promotedJob cfg (w.removeDue x id).clock r) <;> exact h _

theorem may_promoteAll {x : DueIndex} {P : World → Prop} (ids : List String) (err : Option Error)
    (h : P (ids.foldl (World.promoteDue cfg x) w)) :
    wp ρ.env.may (promoteAll cfg x ids err) (fun _ => P) w := by
  induction ids generalizing w err with
  | nil => exact h
  | cons id ids ih =>
    rw [promoteAll, wp_bind]
    exact may_promoteOne hρ fun _ => ih _ h

/-- A promoter whose query answers with all the due jobs on one page. -/
theorem may_promote {x : DueIndex} {P : World → Prop}
    (h : P ((w.store.dueJobs x w.clock.unixMilli).foldl (World.promoteDue cfg x) w)) :
    wp ρ.env.may (promote cfg x) (fun _ => P) w := by
  rw [promote, wp_bind]
  refine may_timeNow ?_
  rw [wp_bind]
  refine may_getDueJobs (Store.isDuePage_dueJobs _ _ _) (Store.inDueOrder_dueJobs _ _ _) ?_
  exact may_promoteAll hρ _ none h

theorem may_retryDeadLetter {P : World → Prop} (hd : w.dead id = true)
    (hr : w.store.jobs.lookup id = some r)
    (h : P (((w.removeDead id).setJob id (r.moved .available (deadLetterUpdates cfg w.clock))).sendJob
      cfg (deadLetterJob cfg w.clock r))) :
    wp ρ.env.may (retryDeadLetter cfg id) (fun _ => P) w := by
  have hr₁ : (w.removeDead id).store.jobs.lookup id = some r := hr
  have hin : (Except.ok (w.store.deadLetters.lookup id).isSome : Except Error Bool).toOption.getD
    false = true := hd
  rw [retryDeadLetter, wp_bind]
  refine wp_may_of_eq (wp_isInDeadLetter hρ) ?_
  rw [wp_ite, if_pos hin, wp_bind]
  refine may_timeNow ?_
  rw [wp_bind]
  refine wp_may_of_eq (wp_getJob_some hρ hr) ?_
  simp only
  rw [wp_bind]
  refine wp_may_of_eq (wp_removeFromDeadLetter hρ) ?_
  rw [wp_bind]
  refine wp_may_of_eq (wp_updateJobState_some hρ hr₁) ?_
  rw [wp_bind]
  refine wp_may_of_eq (wp_sendToSQS cfg hρ) ?_
  refine wp_may_of_every Rules.answers ?_
  exact wp_info hρ fun _ => h

theorem may_resumeQueue {name : String} {P : World → Prop}
    (h : P (w.setQueues (w.store.queues.insert name { w.store.queueItem name with paused := false }))) :
    wp ρ.env.may (resumeQueue name) (fun _ => P) w := by
  refine wp_may_of_eq (a := .ok ()) (fun Q => ?_) h
  rw [resumeQueue, setQueuePaused, wp_request hρ rfl rfl]
  rfl

end
end OjsSqs
