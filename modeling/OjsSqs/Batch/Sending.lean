import OjsSqs.Faults.Notes
import OjsSqs.Lifecycle.Arrive

/-! # Sending a batch

`sendBatchToSQS` splits a list of jobs by queue, in the order in which the map
is met, and each queue's jobs into chunks. When it succeeds there is one more
message for each job of the list, in the job's queue; the messages of the
batch come in some order. -/
namespace OjsSqs
open Calls

/-! ## Groups -/

/-- A list split by a key, the keys in any order, is the list in another order. -/
theorem flatMap_filter_perm {α β : Type} [DecidableEq β] (f : α → β) {keys : List β}
    (hkeys : keys.Nodup) {l : List α} (hl : ∀ a ∈ l, f a ∈ keys) :
    (keys.flatMap fun k => l.filter fun a => f a = k).Perm l := by
  induction keys generalizing l with
  | nil =>
    cases l with
    | nil => exact .nil
    | cons a l => exact absurd (hl a List.mem_cons_self) List.not_mem_nil
  | cons k keys ih =>
    obtain ⟨hk, hkeys⟩ := List.nodup_cons.mp hkeys
    have hrest : (keys.flatMap fun k' => l.filter fun a => f a = k') =
        keys.flatMap fun k' => (l.filter fun a => f a ≠ k).filter fun a => f a = k' := by
      refine List.flatMap_congr fun k' hk' => ?_
      rw [List.filter_filter]
      refine List.filter_congr fun a _ => ?_
      by_cases ha : f a = k'
      · have hne : k' ≠ k := fun h => hk (h ▸ hk')
        simp [ha, hne]
      · simp [ha]
    rw [List.flatMap_cons, hrest]
    refine ((ih hkeys fun a ha => ?_).append_left _).trans ?_
    · obtain ⟨hmem, hne⟩ := List.mem_filter.mp ha
      exact (List.mem_cons.mp (hl a hmem)).resolve_left (of_decide_eq_true hne)
    · have hsplit := List.filter_append_perm (fun a => decide (f a = k)) l
      simpa only [decide_not] using hsplit

/-! ## What has been sent -/

/-- The message of a job as it arrives in its queue, but for its number. -/
def newMessage (cfg : Config) (w : World) (job : Job) : Message where
  id := 0
  queueURL := w.urlOf cfg job.queue
  body := some job
  groupID := (outMessage cfg job job).groupID
  deduplicationID := (outMessage cfg job job).deduplicationID

/-- One message for each of the jobs is new, in the queue of its job. -/
structure Enqueued (cfg : Config) (jobs : List Job) (w w' : World) : Prop where
  url : ∀ queue, w'.urlOf cfg queue = w.urlOf cfg queue
  messages : ∃ new, w'.sqs.messages = w.sqs.messages ++ new ∧
    (new.map fun m => { m with id := 0 }) = jobs.map (newMessage cfg w)

namespace Enqueued
variable {cfg : Config} {jobs jobs' : List Job} {w w' w'' : World}

theorem none (hurl : ∀ queue, w'.urlOf cfg queue = w.urlOf cfg queue)
    (hm : w'.sqs.messages = w.sqs.messages) : Enqueued cfg [] w w' :=
  ⟨hurl, [], by rw [hm, List.append_nil], rfl⟩

theorem trans (h : Enqueued cfg jobs w w') (h' : Enqueued cfg jobs' w' w'') :
    Enqueued cfg (jobs ++ jobs') w w'' where
  url queue := (h'.url queue).trans (h.url queue)
  messages := by
    obtain ⟨new, hm, hnew⟩ := h.messages
    obtain ⟨new', hm', hnew'⟩ := h'.messages
    refine ⟨new ++ new', by rw [hm', hm, List.append_assoc], ?_⟩
    rw [List.map_append, hnew, hnew', List.map_append]
    congr 1
    refine List.map_congr_left fun job _ => ?_
    simp only [newMessage, h.url]

theorem openQueue (queue : String) (w : World) : Enqueued cfg [] w (w.openQueue cfg queue) := by
  refine none (w.openQueue_urlOf cfg queue) ?_
  rw [World.openQueue]
  split
  · rfl
  · exact SqsState.createQueue_messages _

/-- One message sent to the queue of its job. -/
theorem send {url : String} {job : Job} (hurl : w.urlOf cfg job.queue = url) :
    Enqueued cfg [job] w (w.setSqs (w.sqs.send url (outMessage cfg job job))) := by
  refine ⟨fun _ => rfl, _, rfl, ?_⟩
  rw [List.map_singleton, List.map_singleton, newMessage, hurl]
  rfl

/-- `sendToSQS`: one message, unless the job does not fit. -/
theorem sendJob (job : Job) (w : World) :
    Enqueued cfg (if encodes cfg job then [job] else []) w (w.sendJob cfg job) := by
  have hopen : Enqueued cfg [] w (w.openQueue cfg job.queue) := openQueue job.queue w
  rw [World.sendJob, encodes]
  cases he : encodeJob cfg job with
  | error e => exact hopen
  | ok body =>
    rw [encodeJob_body he]
    exact hopen.trans (.send (hopen.url job.queue))

theorem length (h : Enqueued cfg jobs w w') :
    w'.sqs.messages.length = w.sqs.messages.length + jobs.length := by
  obtain ⟨new, hm, hnew⟩ := h.messages
  have hlen := congrArg List.length hnew
  rw [List.length_map, List.length_map] at hlen
  rw [hm, List.length_append, hlen]

/-- The bodies of the new messages are the jobs, and each is in its queue. -/
theorem bodies (h : Enqueued cfg jobs w w') : ∃ new, w'.sqs.messages = w.sqs.messages ++ new ∧
    new.map (·.body) = jobs.map some ∧
    ∀ m ∈ new, ∀ job, m.body = some job → m.queueURL = w.urlOf cfg job.queue := by
  obtain ⟨new, hm, hnew⟩ := h.messages
  refine ⟨new, hm, ?_, fun m hmem job hjob => ?_⟩
  · have hbody := congrArg (List.map Message.body) hnew
    rw [List.map_map, List.map_map] at hbody
    exact hbody
  · have hmem' : ({ m with id := 0 } : Message) ∈ jobs.map (newMessage cfg w) :=
      hnew ▸ List.mem_map_of_mem hmem
    obtain ⟨job', -, heq⟩ := List.mem_map.mp hmem'
    have hbody : some job' = m.body := congrArg Message.body heq
    have hurl : w.urlOf cfg job'.queue = m.queueURL := congrArg Message.queueURL heq
    rw [← hurl, Option.some.inj (hbody.trans hjob)]

/-- The messages of one job after the batch. -/
theorem messagesOf_length (h : Enqueued cfg jobs w w') (id : String) :
    (w'.sqs.messagesOf id).length =
      (w.sqs.messagesOf id).length + (jobs.filter fun job => job.id = id).length := by
  obtain ⟨new, hm, hbody, -⟩ := h.bodies
  rw [SqsState.messagesOf, hm, List.filter_append, List.length_append, SqsState.messagesOf]
  congr 1
  have hcount : (new.filter fun m => m.jobID = some id).length =
      ((new.map (·.body)).filter fun b => b.map (·.id) = some id).length := by
    rw [List.filter_map, List.length_map]
    rfl
  rw [hcount, hbody, List.filter_map, List.length_map]
  congr 1
  refine List.filter_congr fun job _ => ?_
  simp

end Enqueued

/-- They have been sent, and the store is as it was. -/
structure Dispatched (cfg : Config) (jobs : List Job) (w w' : World) : Prop where
  store : w'.store = w.store
  enqueued : Enqueued cfg jobs w w'

namespace Dispatched
variable {cfg : Config} {jobs jobs' : List Job} {w w' w'' : World}

theorem refl (w : World) : Dispatched cfg [] w w := ⟨rfl, .none (fun _ => rfl) rfl⟩

theorem trans (h : Dispatched cfg jobs w w') (h' : Dispatched cfg jobs' w' w'') :
    Dispatched cfg (jobs ++ jobs') w w'' :=
  ⟨h'.store.trans h.store, h.enqueued.trans h'.enqueued⟩

theorem openQueue (queue : String) (w : World) : Dispatched cfg [] w (w.openQueue cfg queue) :=
  ⟨w.openQueue_store cfg queue, .openQueue queue w⟩

/-- A batch request that accepts all entries, to the queue of the jobs. -/
theorem batch {url : String} (hurl : ∀ job ∈ jobs, w.urlOf cfg job.queue = url) :
    Dispatched cfg jobs w (w.setSqs (w.sqs.sendBatch url (jobs.map fun job => outMessage cfg job job))) := by
  induction jobs generalizing w with
  | nil => exact refl w
  | cons job jobs ih =>
    have hone : Dispatched cfg [job] w (w.setSqs (w.sqs.send url (outMessage cfg job job))) :=
      ⟨rfl, .send (hurl job List.mem_cons_self)⟩
    exact hone.trans (ih fun job' hj => hurl job' (List.mem_cons_of_mem _ hj))

end Dispatched

/-! ## The calls of a batch -/

/-- What a batch leaves to the caller's memory: its instant, the identifiers
that were made for it, whether a record has been written, and the last call
that failed. -/
structure BatchLog where
  now : Time := 0
  made : List String := []
  stored : Bool := false
  failed : Option Call := none

/-- SQS has refused some of the entries. -/
def Call.refusesEntries : (c : Call) → Answer c → Bool
  | .sqs (.sendMessageBatch _ _), .ok (_ :: _) => true
  | _, _ => false

/-- The call has failed, or some of its entries have been refused. -/
def Call.refused (c : Call) (r : Answer c) : Bool := callFailed c r || c.refusesEntries r

def BatchLog.carried : (c : Call) → Answer c → BatchLog → BatchLog
  | .proc .now, t, g => { g with now := t }
  | .proc .newUUIDv7, id, g => { g with made := g.made ++ [id] }
  | .dynamo (.putJobItem _), _, g => { g with stored := true }
  | _, _, g => g

def BatchLog.note : Note World Call Answer BatchLog := fun c r _ _ g =>
  if c.refused r then { g with failed := some c } else g.carried c r

/-- The calls of a batch, with what is noted of them. -/
def Rules.batching (ρ : Rules) : Env (World × BatchLog) Call Answer := ρ.env.withGhost BatchLog.note

/-- The calls of which only a failure is noted. -/
def Call.unnoted : Call → Prop
  | .proc .now | .proc .newUUIDv7 | .dynamo (.putJobItem _) | .sqs (.sendMessageBatch _ _) => False
  | _ => True

theorem batchNotes (g : BatchLog) : Notes BatchLog.note Call.unnoted (· = g)
    fun c g' => g' = { g with failed := some c } where
  keep {c r w w' g'} hq hr hg := by
    have hrefused : c.refused r = false := by
      rw [Call.refused, hr, Bool.false_or]
      cases c with
      | sqs c => cases c <;> first | exact hq.elim | rfl
      | _ => rfl
    rw [BatchLog.note, hrefused, hg]
    cases c with
    | dynamo d => cases d <;> first | exact hq.elim | rfl
    | sqs c => rfl
    | proc c => cases c <;> first | exact hq.elim | rfl
  fail {c r w w' g'} _ hr hg := by
    rw [BatchLog.note, Call.refused, hr, hg]
    rfl

section
variable {cfg : Config} {ρ : Rules} {w w' : World} {g : BatchLog} {jobs : List Job}

/-- A batch request fails, is carried out, or some of its entries are refused. -/
theorem Rules.env_sendMessageBatch {url : String} {entries : List OutMessage}
    {r : Except AwsError (List String)}
    (h : ρ.env (.sqs (.sendMessageBatch url entries)) w r w') :
    (∃ msg, r = .error (.other msg) ∧ w' = w) ∨
      (r = .ok [] ∧ w' = w.setSqs (w.sqs.sendBatch url entries)) ∨
      ∃ first rest, r = .ok (first :: rest) ∧ w'.store = w.store := by
  obtain ⟨ch, q', -, he, rfl⟩ := Rules.env_sqs h
  cases ch with
  | fault msg =>
    cases he
    exact .inl ⟨msg, rfl, rfl⟩
  | ok =>
    cases he
    exact .inr (.inl ⟨rfl, rfl⟩)
  | refuse places =>
    cases he
    cases places with
    | nil =>
      refine .inr (.inl ⟨rfl, ?_⟩)
      have hall : SqsState.acceptedEntries [] entries = entries := by
        simp [SqsState.acceptedEntries]
      rw [hall]
    | cons place places => exact .inr (.inr ⟨_, _, rfl, rfl⟩)
  | _ => cases he

/-- Sending has come to an error: a job does not fit, or a call has failed. -/
structure Broken (cfg : Config) (jobs : List Job) (w : World) (g : BatchLog)
    (x : World × BatchLog) : Prop where
  store : x.1.store = w.store
  log : x.2 = g ∧ (∃ job ∈ jobs, encodes cfg job = false) ∨ ∃ c, x.2 = { g with failed := some c }

/-- All of the jobs have been sent, and fit. -/
structure AllSent (cfg : Config) (jobs : List Job) (w : World) (g : BatchLog)
    (x : World × BatchLog) : Prop where
  sent : Dispatched cfg jobs w x.1
  log : x.2 = g
  fit : ∀ job ∈ jobs, encodes cfg job = true

/-- What sending a part of the batch has come to. -/
def SendOutcome (cfg : Config) (jobs : List Job) (w : World) (g : BatchLog) :
    Except Error Unit → World × BatchLog → Prop
  | .error _, x => Broken cfg jobs w g x
  | .ok _, x => AllSent cfg jobs w g x

theorem SendOutcome.after {jobs' : List Job} {a : Except Error Unit} {x : World × BatchLog}
    (h : AllSent cfg jobs w g (w', g)) (h' : SendOutcome cfg jobs' w' g a x) :
    SendOutcome cfg (jobs ++ jobs') w g a x := by
  cases a with
  | error e =>
    have h' : Broken cfg jobs' w' g x := h'
    refine ⟨h'.store.trans h.sent.store, h'.log.imp_left fun ⟨hx, job, hj, he⟩ => ⟨hx, job, ?_, he⟩⟩
    exact List.mem_append_right _ hj
  | ok u =>
    have h' : AllSent cfg jobs' w' g x := h'
    refine ⟨h.sent.trans h'.sent, h'.log, fun job hj => ?_⟩
    exact (List.mem_append.mp hj).elim (h.fit job) (h'.fit job)

theorem encodeChunk_error {chunk : List Job} {e : Error} (h : encodeChunk cfg chunk = .error e) :
    ∃ job ∈ chunk, encodes cfg job = false := by
  induction chunk with
  | nil => cases h
  | cons job chunk ih =>
    rw [encodeChunk] at h
    cases he : encodeJob cfg job with
    | error e' => exact ⟨job, List.mem_cons_self, by rw [encodes, he]; rfl⟩
    | ok body =>
      cases hc : encodeChunk cfg chunk with
      | error e' =>
        obtain ⟨job', hj, hf⟩ := ih (by rw [hc]; rw [he, hc] at h; cases h; rfl)
        exact ⟨job', List.mem_cons_of_mem _ hj, hf⟩
      | ok rest =>
        rw [he, hc] at h
        cases h

theorem encodeChunk_ok {chunk : List Job} {entries : List OutMessage}
    (h : encodeChunk cfg chunk = .ok entries) : ∀ job ∈ chunk, encodes cfg job = true := by
  induction chunk generalizing entries with
  | nil => exact fun _ hj => absurd hj List.not_mem_nil
  | cons job chunk ih =>
    rw [encodeChunk] at h
    cases he : encodeJob cfg job with
    | error e' => rw [he] at h; cases h
    | ok body =>
      cases hc : encodeChunk cfg chunk with
      | error e' => rw [he, hc] at h; cases h
      | ok rest =>
        intro job' hj
        rcases List.mem_cons.mp hj with rfl | hj
        · rw [encodes, he]
          rfl
        · exact ih hc job' hj

theorem batching_sendChunks {url : String} {chunks : List (List Job)}
    (hurl : ∀ job ∈ chunks.flatten, w.urlOf cfg job.queue = url) :
    wp ρ.batching.every (sendChunks cfg url chunks) (SendOutcome cfg chunks.flatten w g) (w, g) := by
  induction chunks generalizing w with
  | nil => exact ⟨.refl w, rfl, fun _ hj => absurd hj List.not_mem_nil⟩
  | cons chunk chunks ih =>
    rw [sendChunks, List.flatten_cons]
    rw [List.flatten_cons] at hurl
    cases he : encodeChunk cfg chunk with
    | error e =>
      obtain ⟨job, hj, hf⟩ := encodeChunk_error he
      exact ⟨rfl, .inl ⟨rfl, job, List.mem_append_left _ hj, hf⟩⟩
    | ok entries =>
      simp only
      rw [wp_bind]
      refine wp_ghost_every fun r w' hr => ?_
      rcases Rules.env_sendMessageBatch hr with ⟨msg, rfl, rfl⟩ | ⟨rfl, rfl⟩ | ⟨first, rest, rfl, hs⟩
      · exact ⟨rfl, .inr ⟨_, rfl⟩⟩
      · have hone : AllSent cfg chunk w g (w.setSqs (w.sqs.sendBatch url entries), g) := by
          refine ⟨?_, rfl, encodeChunk_ok he⟩
          rw [encodeChunk_entries he]
          exact .batch fun job hj => hurl job (List.mem_append_left _ hj)
        refine wp_mono (Env.every_mono _) _ (ih fun job hj => ?_) fun a x => .after hone
        exact (hone.sent.enqueued.url _).trans (hurl job (List.mem_append_right _ hj))
      · exact ⟨hs, .inr ⟨_, rfl⟩⟩

theorem batching_sendGroups {queues : List String} :
    wp ρ.batching.every (sendGroups cfg jobs queues)
      (SendOutcome cfg (queues.flatMap fun queue => jobs.filter fun job => job.queue = queue) w g)
      (w, g) := by
  induction queues generalizing w with
  | nil => exact ⟨.refl w, rfl, fun _ hj => absurd hj List.not_mem_nil⟩
  | cons queue queues ih =>
    rw [sendGroups, wp_bind, List.flatMap_cons]
    refine (batchNotes g).getOrCreateQueueURL rfl cfg (fun c hn hu => ?_) trivial
      (fun e g' hg' => ⟨rfl, .inr ⟨_, hg'⟩⟩) fun g' hg' => ?_
    · cases c <;> first | exact absurd rfl hn | exact absurd rfl hu | trivial
    · rw [hg']
      simp only
      rw [wp_bind]
      have hopen : Dispatched cfg [] w (w.openQueue cfg queue) := .openQueue queue w
      have hgroup := chunksOf_flatten (jobs.filter fun job => job.queue = queue)
      have hurl : ∀ job ∈ (chunksOf (jobs.filter fun job => job.queue = queue)).flatten,
          (w.openQueue cfg queue).urlOf cfg job.queue = w.urlOf cfg queue := by
        intro job hj
        rw [hgroup] at hj
        rw [of_decide_eq_true (List.mem_filter.mp hj).2, hopen.enqueued.url]
      refine wp_mono (Env.every_mono _) _ (batching_sendChunks hurl) fun a x hx => ?_
      · rw [hgroup] at hx
        cases a with
        | error e =>
          have hx : Broken cfg _ _ g x := hx
          refine ⟨hx.store.trans hopen.store, hx.log.imp_left ?_⟩
          rintro ⟨hl, job, hj, hf⟩
          exact ⟨hl, job, List.mem_append_left _ hj, hf⟩
        | ok u =>
          obtain ⟨w'', g'⟩ := x
          have hx : AllSent cfg _ _ g (w'', g') := hx
          have hlog : g' = g := hx.log
          rw [hlog]
          have hsent : AllSent cfg (jobs.filter fun job => job.queue = queue) w g (w'', g) :=
            ⟨hopen.trans hx.sent, rfl, hx.fit⟩
          exact wp_mono (Env.every_mono _) _ ih fun a x => .after hsent

/-- A batch that is sent: one message for each job, in some order. -/
theorem batching_sendBatchToSQS :
    wp ρ.batching.every (sendBatchToSQS cfg jobs) (fun a x =>
      ∃ jobs', jobs'.Perm jobs ∧ SendOutcome cfg jobs' w g a x) (w, g) := by
  rw [sendBatchToSQS, wp_bind]
  refine wp_ghost (wp_rangeMap fun order horder => ?_)
  have hnodup : order.Nodup := horder.nodup_iff.mpr (List.nodup_dedup _)
  refine wp_mono (Env.every_mono _) _ batching_sendGroups fun a x hx => ⟨_, ?_, hx⟩
  refine flatMap_filter_perm Job.queue hnodup fun job hj => ?_
  rw [horder.mem_iff, List.mem_dedup]
  exact List.mem_map_of_mem hj

end

end OjsSqs
