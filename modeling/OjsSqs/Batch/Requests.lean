import OjsSqs.Atomic.Steps
import OjsSqs.Batch.Sending
import OjsSqs.State.Expression

/-! # The requests of a batch

`sendBatchToSQS` makes one `SendMessageBatch` request for each chunk of each
queue's jobs. A ghost keeps the requests; when all of them are accepted every
job has its entry. -/
namespace OjsSqs
open Calls

/-! ## Entries -/

/-- `sqstypes.SendMessageBatchRequestEntry` -/
structure BatchEntry where
  id : String
  message : OutMessage
deriving DecidableEq, Repr

/-- `sqs.SendMessageBatchInput` -/
structure BatchRequest where
  queueURL : String
  entries : List BatchEntry
deriving DecidableEq, Repr

/-- The loop over a chunk, from the index `idx` on. -/
def chunkEntries (cfg : Config) : Nat → List Job → Except Error (List BatchEntry)
  | _, [] => .ok []
  | idx, job :: jobs => match encodeJob cfg job with
    | .error e => .error e
    | .ok body => match chunkEntries cfg (idx + 1) jobs with
      | .error e => .error e
      | .ok entries => .ok (⟨toString idx, outMessage cfg job body⟩ :: entries)

/-- The messages of a request with their places as ids. -/
def numbered (idx : Nat) (messages : List OutMessage) : List BatchEntry :=
  (messages.zipIdx idx).map fun e => ⟨toString e.2, e.1⟩

/-- The request for the jobs of a chunk. -/
def requestOf (cfg : Config) (url : String) (chunk : List Job) : BatchRequest :=
  ⟨url, numbered 0 (chunk.map fun job => outMessage cfg job job)⟩

section
variable {cfg : Config}

/-- The entries of a chunk are its messages with their places. -/
theorem chunkEntries_eq (idx : Nat) (chunk : List Job) :
    chunkEntries cfg idx chunk = (encodeChunk cfg chunk).map (numbered idx) := by
  induction chunk generalizing idx with
  | nil => rfl
  | cons job chunk ih =>
    rw [chunkEntries, encodeChunk, ih]
    cases encodeJob cfg job with
    | error e => rfl
    | ok body => cases encodeChunk cfg chunk <;> rfl

@[simp] theorem numbered_length (idx : Nat) (messages : List OutMessage) :
    (numbered idx messages).length = messages.length := by simp [numbered]

@[simp] theorem numbered_messages (idx : Nat) (messages : List OutMessage) :
    (numbered idx messages).map (·.message) = messages := by
  simp [numbered, List.map_map, Function.comp_def]

theorem numbered_ids (idx : Nat) (messages : List OutMessage) :
    ((numbered idx messages).map (·.id)).Nodup := by
  have hids : (numbered idx messages).map (·.id) =
      (List.range' idx messages.length).map toString := by
    rw [numbered, List.map_map, ← List.zipIdx_map_snd, List.map_map]
    rfl
  rw [hids]
  exact List.Nodup.map (fun _ _ => toString_injective) (List.nodup_range' 1 Nat.one_pos)

theorem requestOf_bodies (url : String) (chunk : List Job) :
    (requestOf cfg url chunk).entries.map (·.message.body) = chunk := by
  have h := numbered_messages 0 (chunk.map fun job => outMessage cfg job job)
  have hbodies := congrArg (List.map (·.body)) h
  rw [List.map_map, List.map_map] at hbodies
  exact hbodies.trans (List.map_id' chunk)

end

/-! ## Chunks -/

/-- A chunk is never empty, and has at most ten jobs. -/
theorem chunksOf_length {jobs chunk : List Job} (h : chunk ∈ chunksOf jobs) :
    1 ≤ chunk.length ∧ chunk.length ≤ 10 := by
  obtain ⟨i, hi, rfl⟩ := List.mem_map.mp h
  rw [List.mem_range] at hi
  rw [List.length_take, List.length_drop]
  omega

/-! ## The requests that are made -/

/-- The ghost has the requests so far. -/
def batchRequests : Note World Call Answer (List BatchRequest)
  | .sqs (.sendMessageBatch url messages), _, _, _, g => g ++ [⟨url, numbered 0 messages⟩]
  | _, _, _, _, g => g

/-- Calls that are no requests of a batch. -/
def Call.unsent : Call → Prop
  | .sqs (.sendMessageBatch _ _) => False
  | _ => True

theorem requestNotes (g : List BatchRequest) :
    Notes batchRequests Call.unsent (· = g) fun _ _ => True where
  keep {c r w w' g'} hq _ hg := by
    cases c with
    | sqs c => cases c <;> first | exact hq.elim | exact hg
    | _ => exact hg
  fail _ _ _ := trivial

/-- The requests for the jobs of the queues, one queue after the other. -/
def requestsFor (cfg : Config) (w : World) (jobs : List Job) (queues : List String) :
    List BatchRequest :=
  queues.flatMap fun queue =>
    (chunksOf (jobs.filter (·.queue = queue))).map (requestOf cfg (w.urlOf cfg queue))

/-- The requests `made` have been made for the jobs, all of which fit. -/
structure RequestsMade (cfg : Config) (made : List BatchRequest) (jobs : List Job) (w : World)
    (g : List BatchRequest) (x : World × List BatchRequest) : Prop where
  url : ∀ queue, x.1.urlOf cfg queue = w.urlOf cfg queue
  requests : x.2 = g ++ made
  fit : ∀ job ∈ jobs, encodeJob cfg job = .ok job

section
variable {cfg : Config} {ρ : Rules} {w w₁ : World} {g g₁ made made₁ : List BatchRequest}
  {jobs jobs₁ : List Job} {x : World × List BatchRequest}

theorem RequestsMade.none : RequestsMade cfg [] [] w g (w, g) :=
  ⟨fun _ => rfl, (List.append_nil g).symm, fun _ hj => absurd hj List.not_mem_nil⟩

theorem RequestsMade.trans (h : RequestsMade cfg made jobs w g (w₁, g₁))
    (h₁ : RequestsMade cfg made₁ jobs₁ w₁ g₁ x) :
    RequestsMade cfg (made ++ made₁) (jobs ++ jobs₁) w g x := by
  refine ⟨fun queue => (h₁.url queue).trans (h.url queue), ?_, fun job hj => ?_⟩
  · have hg : g₁ = g ++ made := h.requests
    rw [h₁.requests, hg, List.append_assoc]
  · exact (List.mem_append.mp hj).elim (h.fit job) (h₁.fit job)

theorem encodeJob_of_encodes {job : Job} (h : encodes cfg job = true) :
    encodeJob cfg job = .ok job := by
  rw [encodes] at h
  cases he : encodeJob cfg job with
  | error e => rw [he] at h; cases h
  | ok body => rw [encodeJob_body he]

theorem sendChunks_requests {url : String} (chunks : List (List Job)) :
    wp (ρ.env.withGhost batchRequests).every (sendChunks cfg url chunks) (fun a x => a = .ok () →
      RequestsMade cfg (chunks.map (requestOf cfg url)) chunks.flatten w g x) (w, g) := by
  induction chunks generalizing w g with
  | nil => exact fun _ => .none
  | cons chunk chunks ih =>
    rw [sendChunks]
    cases he : encodeChunk cfg chunk with
    | error e => exact fun h => by cases h
    | ok messages =>
      simp only
      rw [wp_bind]
      refine wp_ghost_every fun r w' hr => ?_
      obtain ⟨_, q', -, -, rfl⟩ := Rules.env_sqs hr
      cases r with
      | error e => exact fun h => by cases h
      | ok refused =>
        cases refused with
        | cons first rest => exact fun h => by cases h
        | nil =>
          refine wp_mono (Env.every_mono _) _ ih fun a x h ha => ?_
          have hone : RequestsMade cfg [requestOf cfg url chunk] chunk w g
              (w.setSqs q', g ++ [⟨url, numbered 0 messages⟩]) := by
            refine ⟨fun _ => rfl, ?_, fun job hj => encodeJob_of_encodes (encodeChunk_ok he job hj)⟩
            rw [encodeChunk_entries he]
            rfl
          exact hone.trans (h ha)

theorem sendGroups_requests (queues : List String) :
    wp (ρ.env.withGhost batchRequests).every (sendGroups cfg jobs queues) (fun a x => a = .ok () →
      RequestsMade cfg (requestsFor cfg w jobs queues)
        (queues.flatMap fun queue => jobs.filter (·.queue = queue)) w g x) (w, g) := by
  induction queues generalizing w g with
  | nil => exact fun _ => .none
  | cons queue queues ih =>
    rw [sendGroups, wp_bind]
    refine (requestNotes g).getOrCreateQueueURL rfl cfg (fun _ _ _ => trivial) trivial
      (fun e g' _ h => by cases h) fun g' hg' => ?_
    subst hg'
    simp only
    rw [wp_bind]
    refine wp_mono (Env.every_mono _) _ (sendChunks_requests _) fun a x h => ?_
    cases a with
    | error e => exact fun h => by cases h
    | ok _ =>
      obtain ⟨w₁, g₁⟩ := x
      have hgroup := h rfl
      rw [chunksOf_flatten] at hgroup
      have hfirst : RequestsMade cfg _ (jobs.filter (·.queue = queue)) w g' (w₁, g₁) :=
        ⟨fun queue' => (hgroup.url queue').trans (w.openQueue_urlOf cfg queue queue'),
          hgroup.requests, hgroup.fit⟩
      have hsame : requestsFor cfg w₁ jobs queues = requestsFor cfg w jobs queues :=
        List.flatMap_congr fun queue' _ => by rw [hfirst.url]
      refine wp_mono (Env.every_mono _) _ ih fun a x hrest ha => ?_
      have hrest := hrest ha
      rw [hsame] at hrest
      exact hfirst.trans hrest

end

/-! ## A batch that is sent -/

/-- What the requests of a batch do for its jobs. -/
structure SentByQueue (cfg : Config) (w : World) (jobs : List Job) (requests : List BatchRequest) :
    Prop where
  size : ∀ req ∈ requests, 1 ≤ req.entries.length ∧ req.entries.length ≤ 10
  ids : ∀ req ∈ requests, (req.entries.map (·.id)).Nodup
  entry : ∀ req ∈ requests, ∀ e ∈ req.entries, ∃ job ∈ jobs, encodeJob cfg job = .ok e.message.body ∧
    e.message = outMessage cfg job e.message.body ∧ req.queueURL = w.urlOf cfg job.queue
  once : (requests.flatMap fun req => req.entries.map (·.message.body)).Perm jobs
  order : ∀ queue, ((requests.flatMap fun req => req.entries.map (·.message.body)).filter
    (·.queue = queue)) = jobs.filter (·.queue = queue)

section
variable {cfg : Config} {ρ : Rules} {w w' : World} {jobs : List Job} {queues : List String}

theorem requestsFor_bodies : ((requestsFor cfg w jobs queues).flatMap fun req =>
    req.entries.map (·.message.body)) =
      queues.flatMap fun queue => jobs.filter (·.queue = queue) := by
  rw [requestsFor, List.flatMap_assoc]
  refine List.flatMap_congr fun queue _ => ?_
  rw [List.flatMap_map]
  simp only [requestOf_bodies]
  rw [List.flatMap_id', chunksOf_flatten]

/-- The jobs of one queue are those of its group. -/
theorem filter_groups (hnodup : queues.Nodup) (queue : String) :
    (queues.flatMap fun q => jobs.filter (·.queue = q)).filter (·.queue = queue) =
      if queue ∈ queues then jobs.filter (·.queue = queue) else [] := by
  induction queues with
  | nil => rfl
  | cons q queues ih =>
    obtain ⟨hq, hnodup⟩ := List.nodup_cons.mp hnodup
    rw [List.flatMap_cons, List.filter_append, ih hnodup, List.filter_filter]
    by_cases he : queue = q
    · subst he
      rw [if_neg hq, if_pos List.mem_cons_self, List.append_nil]
      exact List.filter_congr fun job _ => Bool.and_self _
    · have hnone : jobs.filter (fun job => decide (job.queue = queue) && decide (job.queue = q)) =
          [] := by
        refine List.filter_eq_nil_iff.mpr fun job _ h => ?_
        rw [Bool.and_eq_true, decide_eq_true_eq, decide_eq_true_eq] at h
        exact he (h.1.symm.trans h.2)
      rw [hnone, List.nil_append]
      simp only [List.mem_cons, he, false_or]

/-- **A batch that is sent** reaches every queue in its order, in requests of at
most ten entries. -/
theorem sendBatchToSQS_requests {requests : List BatchRequest}
    (h : Runs (ρ.env.withGhost batchRequests) (sendBatchToSQS cfg jobs) (w, []) (.ok ())
      (w', requests)) : SentByQueue cfg w jobs requests := by
  have hwp : wp (ρ.env.withGhost batchRequests).every (sendBatchToSQS cfg jobs) (fun a x =>
      a = .ok () → ∃ order : List String, order.Perm (jobs.map (·.queue)).dedup ∧
        RequestsMade cfg (requestsFor cfg w jobs order)
          (order.flatMap fun queue => jobs.filter (·.queue = queue)) w [] x) (w, []) := by
    rw [sendBatchToSQS, wp_bind]
    refine wp_ghost (wp_rangeMap fun order horder => ?_)
    exact wp_mono (Env.every_mono _) _ (sendGroups_requests order) fun _ _ h ha =>
      ⟨order, horder, h ha⟩
  obtain ⟨order, horder, hmade⟩ := wp_runs hwp h rfl
  have hreq : requests = requestsFor cfg w jobs order := hmade.requests
  have hnodup : order.Nodup := horder.nodup_iff.mpr (List.nodup_dedup _)
  have hqueue : ∀ job ∈ jobs, job.queue ∈ order := by
    intro job hj
    rw [horder.mem_iff, List.mem_dedup]
    exact List.mem_map_of_mem hj
  -- a request is for a chunk of one queue's jobs
  have hchunk : ∀ req ∈ requests, ∃ queue chunk, chunk ∈ chunksOf (jobs.filter (·.queue = queue)) ∧
      req = requestOf cfg (w.urlOf cfg queue) chunk := by
    intro req hr
    rw [hreq] at hr
    obtain ⟨queue, -, hr⟩ := List.mem_flatMap.mp hr
    obtain ⟨chunk, hc, rfl⟩ := List.mem_map.mp hr
    exact ⟨queue, chunk, hc, rfl⟩
  refine ⟨fun req hr => ?_, fun req hr => ?_, fun req hr e he => ?_, ?_, fun queue => ?_⟩
  · obtain ⟨queue, chunk, hc, rfl⟩ := hchunk req hr
    rw [requestOf, numbered_length, List.length_map]
    exact chunksOf_length hc
  · obtain ⟨queue, chunk, -, rfl⟩ := hchunk req hr
    exact numbered_ids 0 _
  · obtain ⟨queue, chunk, hc, rfl⟩ := hchunk req hr
    have hmsg : e.message ∈ chunk.map fun job => outMessage cfg job job := by
      rw [← numbered_messages 0 (chunk.map fun job => outMessage cfg job job)]
      exact List.mem_map_of_mem he
    obtain ⟨job, hj, hm⟩ := List.mem_map.mp hmsg
    have hgroup : job ∈ jobs.filter (·.queue = queue) := by
      rw [← chunksOf_flatten (jobs.filter (·.queue = queue))]
      exact List.mem_flatten_of_mem hc hj
    obtain ⟨hmem, hq⟩ := List.mem_filter.mp hgroup
    have hq := of_decide_eq_true hq
    subst hq
    refine ⟨job, hmem, ?_, ?_, rfl⟩
    · rw [← hm]
      exact hmade.fit job (List.mem_flatMap.mpr ⟨job.queue, hqueue job hmem, hgroup⟩)
    · rw [← hm]
      rfl
  · rw [hreq, requestsFor_bodies]
    exact flatMap_filter_perm Job.queue hnodup hqueue
  · rw [hreq, requestsFor_bodies, filter_groups hnodup]
    split
    · rfl
    · rename_i hq
      refine (List.filter_eq_nil_iff.mpr fun job hj hjq => hq ?_).symm
      rw [← of_decide_eq_true hjq]
      exact hqueue job hj

end

/-- Two queues, the second of which comes first in the map. -/
theorem sendBatchToSQS_requests_two : ∃ requests : List BatchRequest, requests.length = 2 ∧
    SentByQueue demo {} [demoJob, { demoJob with id := "j2", queue := "mail" }] requests := by
  have hrun : ((script (ghostAct (Rules.act {}) batchRequests)
      [.page ["mail", "default"], .ok, .ok, .ok, .ok, .ok, .ok, .ok, .ok, .ok, .ok]
      (sendBatchToSQS demo [demoJob, { demoJob with id := "j2", queue := "mail" }])
      (({}, []) : World × List BatchRequest)).map fun x => (x.1.toOption.isSome, x.2.2.length)) =
      some (true, 2) := rfl
  obtain ⟨⟨a, w', requests⟩, hscript, hx⟩ := Option.map_eq_some_iff.mp hrun
  obtain ⟨ha, hlen⟩ := Prod.mk.inj hx
  cases a with
  | error e => cases ha
  | ok u => exact ⟨requests, hlen, sendBatchToSQS_requests (ghost_script_runs _ hscript)⟩

end OjsSqs
