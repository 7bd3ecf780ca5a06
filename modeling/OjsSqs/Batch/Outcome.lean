import OjsSqs.Atomic.Steps
import OjsSqs.Batch.Sending

/-! # Batches that fail

PushBatch checks its jobs, then stores them one after the other, then sends
them. What fails after the first record leaves that record behind. So a batch
is all or nothing only when nothing fails, when it is refused before anything
is written, or when the first write is the one that fails. -/
namespace OjsSqs
open Calls

/-- The job as PushBatch stores it. -/
def batchJob (cfg : Config) (now : Time) (id : String) (job : Job) : Job :=
  { job with
    id := id
    state := .available
    attempt := 0
    createdAt := cfg.formatTime now
    enqueuedAt := cfg.formatTime now }

/-- The batch as it is stored; jobs without an identifier get those that were
made, in order. -/
def stampBatch (cfg : Config) (now : Time) : List Job → List String → List Job
  | [], _ => []
  | job :: jobs, made =>
    if job.id = "" then batchJob cfg now (made.headD "") job :: stampBatch cfg now jobs made.tail
    else batchJob cfg now job.id job :: stampBatch cfg now jobs made

/-- One job of the batch has been stored. -/
def World.storeJob (w : World) (job : Job) : World :=
  (w.setJob job.id (jobToRecord job)).registerQueue job.queue

section
variable (cfg : Config) (w w' : World) (g : BatchLog) (jobs batch : List Job)

/-- After an error no job of the batch is there; otherwise each is stored, and
has its one message when it is available. -/
def AllOrNothing : Except Error (List Job) → Prop
  | .error _ => ∀ job ∈ batch, job.id ≠ "" →
      w'.store.jobs.lookup job.id = none ∧ w'.sqs.messagesOf job.id = []
  | .ok _ => ∀ job ∈ batch, ∃ r, w'.store.jobs.lookup job.id = some r ∧ (r.state = .available →
      ∃ m, w'.sqs.messagesOf job.id = [m] ∧ m.queueURL = w'.urlOf cfg job.queue)

/-- No call fails and no entry is refused; the jobs fit, and are new. -/
structure Unhindered : Prop where
  valid : validateBatch cfg jobs = none
  failed : g.failed = none
  fit : ∀ job ∈ batch, encodes cfg job = true
  ids : (batch.map (·.id)).Nodup
  unsent : ∀ job ∈ batch, w.sqs.messagesOf job.id = []

/-- The batch is not valid, or its first record could not be written; and no
job of it was there before. -/
structure Unstarted : Prop where
  refused : (validateBatch cfg jobs).isSome ∨
    g.stored = false ∧ ∃ r, g.failed = some (.dynamo (.putJobItem r))
  absent : ∀ job ∈ batch, job.id ≠ "" →
    w.store.jobs.lookup job.id = none ∧ w.sqs.messagesOf job.id = []

end

/-! ## Storing -/

section
variable {w : World} {batch : List Job}

@[simp] theorem World.storeJob_sqs (job : Job) : (w.storeJob job).sqs = w.sqs := by
  simp [World.storeJob, World.setJob]

@[simp] theorem World.storeJob_urls (job : Job) : (w.storeJob job).queueURLs = w.queueURLs := by
  rw [World.storeJob, World.registerQueue]
  split <;> rfl

theorem World.storeJob_jobs (job : Job) :
    (w.storeJob job).store.jobs = w.store.jobs.insert job.id (jobToRecord job) := by
  rw [World.storeJob, World.registerQueue]
  split <;> rfl

theorem World.storeJob_keys (job : Job) :
    (w.storeJob job).store.uniqueKeys = w.store.uniqueKeys := by
  rw [World.storeJob, World.registerQueue]
  split <;> rfl

theorem World.foldl_storeJob_sqs : (batch.foldl World.storeJob w).sqs = w.sqs ∧
    (batch.foldl World.storeJob w).queueURLs = w.queueURLs := by
  induction batch generalizing w with
  | nil => exact ⟨rfl, rfl⟩
  | cons job batch ih =>
    obtain ⟨hs, hu⟩ := @ih (w.storeJob job)
    exact ⟨hs.trans (World.storeJob_sqs job), hu.trans (World.storeJob_urls job)⟩

/-- Records of available jobs only are added. -/
theorem World.foldl_storeJob_stored {job : Job} (h : job ∈ batch)
    (hb : ∀ job ∈ batch, job.state = .available) :
    ∃ r, (batch.foldl World.storeJob w).store.jobs.lookup job.id = some r ∧
      r.state = .available := by
  have hkeep : ∀ (batch : List Job) (w : World), (∀ job ∈ batch, job.state = .available) →
      (∃ r, w.store.jobs.lookup job.id = some r ∧ r.state = .available) →
      ∃ r, (batch.foldl World.storeJob w).store.jobs.lookup job.id = some r ∧
        r.state = .available := by
    intro batch
    induction batch with
    | nil => exact fun w _ h => h
    | cons next batch ih =>
      intro w hb ⟨r, hr, hs⟩
      refine ih _ (fun j hj => hb j (List.mem_cons_of_mem _ hj)) ?_
      rw [World.storeJob_jobs]
      by_cases hid : job.id = next.id
      · rw [hid]
        exact ⟨_, AList.lookup_insert _, hb next List.mem_cons_self⟩
      · exact ⟨r, (AList.lookup_insert_ne hid).trans hr, hs⟩
  induction batch generalizing w with
  | nil => cases h
  | cons next batch ih =>
    have hrest : ∀ job ∈ batch, job.state = .available :=
      fun j hj => hb j (List.mem_cons_of_mem _ hj)
    rcases List.mem_cons.mp h with rfl | h
    · refine hkeep batch _ hrest ⟨jobToRecord job, ?_, hb job List.mem_cons_self⟩
      rw [World.storeJob_jobs]
      exact AList.lookup_insert _
    · exact ih h hrest

end

theorem stampBatch_available {cfg : Config} {now : Time} (jobs : List Job) (made : List String) :
    ∀ job ∈ stampBatch cfg now jobs made, job.state = .available := by
  induction jobs generalizing made with
  | nil => exact fun _ h => absurd h List.not_mem_nil
  | cons job jobs ih =>
    intro j hj
    rw [stampBatch] at hj
    split at hj
    · rcases List.mem_cons.mp hj with rfl | hj
      · rfl
      · exact ih _ j hj
    · rcases List.mem_cons.mp hj with rfl | hj
      · rfl
      · exact ih _ j hj

/-- What storing a part of the batch has come to; `new` are the identifiers
made for it. -/
structure StoreFailed (cfg : Config) (now : Time) (jobs : List Job) (new : List String) (w : World)
    (g : BatchLog) (x : World × BatchLog) : Prop where
  failed : x.2.failed ≠ none
  first : x.1 = w ∧ x.2.stored = g.stored ∧ (∃ r, x.2.failed = some (.dynamo (.putJobItem r))) ∨
    x.2.stored = true ∧ ∃ job ∈ stampBatch cfg now jobs new, job.id ≠ "" ∧
      (x.1.store.jobs.lookup job.id).isSome

structure StoreDone (cfg : Config) (now : Time) (jobs : List Job) (new : List String) (w : World)
    (g : BatchLog) (x : World × BatchLog) : Prop where
  failed : x.2.failed = none
  stored : g.stored = true ∨ jobs ≠ [] → x.2.stored = true
  world : x.1 = (stampBatch cfg now jobs new).foldl World.storeJob w
  ids : ∀ job ∈ stampBatch cfg now jobs new, job.id ≠ ""

/-- The identifiers made are noted, in any case. -/
def StoreOutcome (cfg : Config) (now : Time) (jobs done : List Job) (w : World) (g : BatchLog)
    (a : Except Error (List Job)) (x : World × BatchLog) : Prop :=
  ∃ new, x.2.now = g.now ∧ x.2.made = g.made ++ new ∧ match a with
    | .error _ => StoreFailed cfg now jobs new w g x
    | .ok stored => stored = done ++ stampBatch cfg now jobs new ∧ StoreDone cfg now jobs new w g x

section
variable {cfg : Config} {ρ : Rules} {now : Time} {w : World} {g : BatchLog}

/-- The record and the queue of one job. -/
theorem batching_storeJob {job : Job} {rest : M (Except Error (List Job))}
    {Q : Except Error (List Job) → World × BatchLog → Prop}
    (hput : ∀ e, Q (.error e) (w, { g with failed := some (.dynamo (.putJobItem (jobToRecord job))) }))
    (hqueue : ∀ e w' c, (w'.store.jobs.lookup job.id).isSome →
      Q (.error e) (w', { g with stored := true, failed := some c }))
    (hok : wp ρ.batching.every rest Q (w.storeJob job, { g with stored := true })) {s₁ s₂ : String} :
    wp ρ.batching.every (do match ← putJob (jobToRecord job) with
      | .error e => return .error (.wrap s₁ e)
      | .ok _ =>
        match ← registerQueue job.queue with
        | .error e => return .error (.wrap s₂ e)
        | .ok _ => rest) Q (w, g) := by
  have hstored : ((w.setJob job.id (jobToRecord job)).store.jobs.lookup job.id).isSome := by
    simp [World.setJob]
  rw [wp_bind, putJob, request, wp_bind]
  refine wp_ghost (wp_dynamo_faulty rfl (fun msg => hput _) ?_)
  have hrest : wp ρ.batching.every (do match ← registerQueue job.queue with
      | .error e => return .error (.wrap s₂ e)
      | .ok _ => rest) Q (w.setJob job.id (jobToRecord job), { g with stored := true }) := by
    rw [wp_bind, registerQueue, wp_bind]
    refine (batchNotes { g with stored := true }).dynamo (c := .putQueueItem job.queue) rfl rfl trivial
      (fun msg g' hg' => ?_) fun g' hg' => ?_
    · obtain rfl := hg'
      exact hqueue _ _ _ hstored
    · obtain rfl := hg'
      simp only [Store.run]
      rw [World.storeJob, World.registerQueue] at hok
      cases hq : (w.setJob job.id (jobToRecord job)).store.queues.lookup job.queue with
      | some item =>
        rw [hq] at hok
        exact hok
      | none =>
        rw [hq] at hok
        exact hok
  exact hrest

theorem batching_storeBatch (jobs done : List Job) (hg : g.failed = none) :
    wp ρ.batching.every (storeBatch cfg now jobs done) (StoreOutcome cfg now jobs done w g) (w, g) := by
  induction jobs generalizing w g done with
  | nil =>
    refine ⟨[], rfl, (List.append_nil _).symm, ?_⟩
    exact ⟨(List.append_nil _).symm, hg, fun h => h.resolve_right fun h => h rfl, rfl,
      fun _ hj => absurd hj List.not_mem_nil⟩
  | cons job jobs ih =>
    -- the job gets its identifier; `first` is what was made for it
    have hcons : ∀ (id : String) (first : List String) (g' : BatchLog), id ≠ "" →
        (∀ new, stampBatch cfg now (job :: jobs) (first ++ new) =
          batchJob cfg now id job :: stampBatch cfg now jobs new) →
        g'.failed = none → g'.now = g.now → g'.made = g.made ++ first → g'.stored = g.stored →
        wp ρ.batching.every (do match ← putJob (jobToRecord (batchJob cfg now id job)) with
          | .error e => return .error (.wrap ("store batch job " ++ (batchJob cfg now id job).id) e)
          | .ok _ =>
            match ← registerQueue (batchJob cfg now id job).queue with
            | .error e => return .error (.wrap ("register queue " ++ (batchJob cfg now id job).queue) e)
            | .ok _ => storeBatch cfg now jobs (done ++ [batchJob cfg now id job]))
          (StoreOutcome cfg now (job :: jobs) done w g) (w, g') := by
      intro id first g' hid hstamp hf hnow hmade hst
      refine batching_storeJob (fun e => ?_) (fun e w' c hs => ?_) ?_
      · exact ⟨first, hnow, hmade, nofun, .inl ⟨rfl, hst, _, rfl⟩⟩
      · refine ⟨first, hnow, hmade, nofun, .inr ⟨rfl, batchJob cfg now id job, ?_, hid, hs⟩⟩
        rw [← List.append_nil first, hstamp]
        exact List.mem_cons_self
      · refine wp_mono (Env.every_mono _) _ (ih _ hf) fun a x hx => ?_
        obtain ⟨new, hnow', hmade', hx⟩ := hx
        refine ⟨first ++ new, hnow'.trans hnow, by rw [hmade', hmade, List.append_assoc], ?_⟩
        cases a with
        | error e =>
          have hx : StoreFailed cfg now jobs new _ _ x := hx
          refine ⟨hx.failed, .inr ?_⟩
          rw [hstamp]
          rcases hx.first with ⟨hw, hs, -⟩ | ⟨hs, j, hj, hne, hsome⟩
          · refine ⟨hs, batchJob cfg now id job, List.mem_cons_self, hid, ?_⟩
            rw [hw, World.storeJob_jobs, AList.lookup_insert]
            rfl
          · exact ⟨hs, j, List.mem_cons_of_mem _ hj, hne, hsome⟩
        | ok stored =>
          obtain ⟨rfl, hx⟩ := hx
          rw [hstamp]
          refine ⟨by rw [List.append_assoc, List.singleton_append], hx.failed,
            fun _ => hx.stored (.inl rfl), ?_, ?_⟩
          · rw [hstamp, List.foldl_cons]
            exact hx.world
          · rw [hstamp]
            intro j hj
            rcases List.mem_cons.mp hj with rfl | hj
            · exact hid
            · exact hx.ids j hj
    rw [storeBatch, wp_bind, assignID]
    split
    · rename_i hempty
      refine wp_ghost (wp_newUUIDv7 fun id hid _ _ => ?_)
      refine hcons id [id] { g with made := g.made ++ [id] } hid (fun new => ?_) hg rfl rfl rfl
      rw [stampBatch, if_pos hempty]
      rfl
    · rename_i hid
      refine hcons job.id [] g hid (fun new => ?_) hg rfl (List.append_nil _).symm rfl
      rw [stampBatch, if_neg hid]
      rfl

end

/-! ## The outcome -/

section
variable {cfg : Config} {ρ : Rules} {w w' : World} {jobs : List Job}

theorem count_ids (batch : List Job) (id : String) :
    (batch.map (·.id)).count id = (batch.filter fun job => job.id = id).length := by
  rw [List.count, List.countP_map, List.countP_eq_length_filter]
  congr 1

/-- A batch that was sent is as it should be if and only if its identifiers
differ and had no messages. -/
theorem allSent_iff {batch batch' : List Job} {g : BatchLog} {a : List Job} {x : World × BatchLog}
    (hperm : batch'.Perm batch) (hav : ∀ job ∈ batch, job.state = .available)
    (hw : w' = batch.foldl World.storeJob w) (h : AllSent cfg batch' w' g x) :
    AllOrNothing cfg x.1 batch (.ok a) ↔
      (batch.map (·.id)).Nodup ∧ ∀ job ∈ batch, w.sqs.messagesOf job.id = [] := by
  have hsqs : w'.sqs = w.sqs := by rw [hw, World.foldl_storeJob_sqs.1]
  have hstored : ∀ job ∈ batch, ∃ r, x.1.store.jobs.lookup job.id = some r ∧
      r.state = .available := by
    intro job hj
    rw [h.sent.store, hw]
    exact World.foldl_storeJob_stored hj hav
  have hlen : ∀ id, (x.1.sqs.messagesOf id).length =
      (w.sqs.messagesOf id).length + (batch.map (·.id)).count id := by
    intro id
    rw [h.sent.enqueued.messagesOf_length, hsqs, count_ids, (hperm.filter _).length_eq]
  constructor
  · intro hall
    have hone : ∀ job ∈ batch, (w.sqs.messagesOf job.id).length +
        (batch.map (·.id)).count job.id = 1 := by
      intro job hj
      obtain ⟨r, hr, hm⟩ := hall job hj
      obtain ⟨r', hr', hs⟩ := hstored job hj
      obtain rfl := Option.some.inj (hr.symm.trans hr')
      obtain ⟨m, hm, -⟩ := hm hs
      rw [← hlen, hm]
      rfl
    have hpos : ∀ job ∈ batch, 0 < (batch.map (·.id)).count job.id :=
      fun job hj => List.count_pos_iff.mpr (List.mem_map_of_mem hj)
    refine ⟨List.nodup_iff_count_le_one.mpr fun id => ?_, fun job hj => ?_⟩
    · by_cases hid : id ∈ batch.map (·.id)
      · obtain ⟨job, hj, rfl⟩ := List.mem_map.mp hid
        have := hone job hj
        omega
      · rw [List.count_eq_zero_of_not_mem hid]
        exact Nat.zero_le _
    · have h₁ := hone job hj
      have h₂ := hpos job hj
      exact List.length_eq_zero_iff.mp (by omega)
  · rintro ⟨hnodup, hnew⟩ job hj
    obtain ⟨r, hr, -⟩ := hstored job hj
    refine ⟨r, hr, fun _ => ?_⟩
    have hone : (x.1.sqs.messagesOf job.id).length = 1 := by
      rw [hlen, hnew job hj, List.count_eq_one_of_mem hnodup (List.mem_map_of_mem hj)]
      rfl
    obtain ⟨m, hm⟩ := List.length_eq_one_iff.mp hone
    refine ⟨m, hm, ?_⟩
    -- the message is one of the batch, and its job can only be this one
    obtain ⟨new, hmsgs, hbody, hurl⟩ := h.sent.enqueued.bodies
    have hmem : m ∈ x.1.sqs.messagesOf job.id := hm ▸ List.mem_singleton_self m
    obtain ⟨hmem, hid⟩ := List.mem_filter.mp hmem
    have hid := of_decide_eq_true hid
    rw [hmsgs, hsqs] at hmem
    have hm' : m ∈ new := by
      refine (List.mem_append.mp hmem).resolve_left fun hold => ?_
      have hnone := hnew job hj
      rw [SqsState.messagesOf, List.filter_eq_nil_iff] at hnone
      exact hnone m hold (decide_eq_true hid)
    have hb : m.body ∈ batch'.map some := hbody ▸ List.mem_map_of_mem hm'
    obtain ⟨job', hj', hb⟩ := List.mem_map.mp hb
    have hsame : job'.id = job.id := by
      rw [Message.jobID, ← hb] at hid
      exact Option.some.inj hid
    have heq := List.inj_on_of_nodup_map hnodup (hperm.mem_iff.mp hj') hj hsame
    rw [hurl m hm' job' hb.symm, heq, h.sent.enqueued.url]

/-- What has to be said of a batch that began in `w`. -/
def BatchVerdict (cfg : Config) (jobs : List Job) (w : World) (a : Except Error (List Job))
    (x : World × BatchLog) : Prop :=
  AllOrNothing cfg x.1 (stampBatch cfg x.2.now jobs x.2.made) a ↔
    Unhindered cfg w x.2 jobs (stampBatch cfg x.2.now jobs x.2.made) ∨
      Unstarted cfg w x.2 jobs (stampBatch cfg x.2.now jobs x.2.made)

/-- A batch that has left one of its records after an error. -/
theorem BatchVerdict.torn {e : Error} {x : World × BatchLog} {job : Job}
    (hvalid : validateBatch cfg jobs = none) (hst : x.2.stored = true)
    (hj : job ∈ stampBatch cfg x.2.now jobs x.2.made) (hid : job.id ≠ "")
    (hs : (x.1.store.jobs.lookup job.id).isSome)
    (hnot : x.2.failed ≠ none ∨ ∃ job ∈ stampBatch cfg x.2.now jobs x.2.made, encodes cfg job = false) :
    BatchVerdict cfg jobs w (.error e) x := by
  refine iff_of_false (fun h => ?_) ?_
  · rw [(h job hj hid).1] at hs
    cases hs
  · rintro (h | h)
    · rcases hnot with hf | ⟨j, hj, hf⟩
      · exact hf h.failed
      · exact absurd (h.fit j hj) (by rw [hf]; nofun)
    · rcases h.refused with hr | ⟨hr, -⟩
      · rw [hvalid] at hr
        cases hr
      · rw [hst] at hr
        cases hr

/-- A batch that ends before its first write. -/
theorem BatchVerdict.unstarted {e : Error} {x : World × BatchLog} {t : Time}
    (hw : x.1 = w.setClock t) (hnot : validateBatch cfg jobs ≠ none ∨ x.2.failed ≠ none)
    (hrefused : (validateBatch cfg jobs).isSome ∨
      x.2.stored = false ∧ ∃ r, x.2.failed = some (.dynamo (.putJobItem r))) :
    BatchVerdict cfg jobs w (.error e) x := by
  rw [BatchVerdict, hw]
  constructor
  · exact fun h => .inr ⟨hrefused, h⟩
  · rintro (h | h)
    · exact absurd h.valid (hnot.resolve_right fun hf => hf h.failed)
    · exact h.absent

/-- **Batches are all or nothing** if and only if nothing hinders them and their
jobs are new, or they end before the first write. -/
theorem batch_all_or_nothing {g : BatchLog} {a : Except Error (List Job)}
    (hrun : Runs ρ.batching (pushBatch cfg jobs) (w, {}) a (w', g)) :
    AllOrNothing cfg w' (stampBatch cfg g.now jobs g.made) a ↔
      Unhindered cfg w g jobs (stampBatch cfg g.now jobs g.made) ∨
        Unstarted cfg w g jobs (stampBatch cfg g.now jobs g.made) := by
  refine wp_runs (Q := BatchVerdict cfg jobs w) ?_ hrun
  rw [pushBatch, wp_ite]
  split
  · rename_i hempty
    have hnone : ∀ {P : Job → Prop}, ∀ job ∈ stampBatch cfg 0 jobs [], P job := by
      rw [List.isEmpty_iff.mp hempty]
      exact fun _ hj => absurd hj List.not_mem_nil
    refine iff_of_true hnone (.inl ⟨?_, rfl, hnone, ?_, hnone⟩)
    · rw [List.isEmpty_iff.mp hempty]
      rfl
    · rw [List.isEmpty_iff.mp hempty]
      exact List.nodup_nil
  rename_i hempty
  cases hvalid : validateBatch cfg jobs with
  | some e =>
    exact .unstarted (t := w.clock) rfl (.inl fun h => by rw [hvalid] at h; cases h) (.inl (by rw [hvalid]; rfl))
  | none =>
    simp only
    rw [wp_bind]
    refine wp_ghost (wp_timeNow fun now _ => ?_)
    rw [wp_bind]
    refine wp_mono (Env.every_mono _) _ (batching_storeBatch jobs [] rfl) fun a x hx => ?_
    obtain ⟨w₁, g₁⟩ := x
    obtain ⟨new, hnow, hmade, hx⟩ := hx
    obtain rfl : g₁.now = now := hnow
    obtain rfl : g₁.made = new := hmade
    cases a with
    | error e =>
      have hx : StoreFailed cfg g₁.now jobs g₁.made (w.setClock g₁.now) _ (w₁, g₁) := hx
      rcases hx.first with ⟨hw, hst, hput⟩ | ⟨hst, job, hj, hid, hs⟩
      · exact .unstarted hw (.inr hx.failed) (.inr ⟨hst, hput⟩)
      · exact .torn hvalid hst hj hid hs (.inl hx.failed)
    | ok stored =>
      obtain ⟨rfl, hx⟩ := hx
      have hst : g₁.stored = true := hx.stored (.inr fun h => hempty (by rw [h]; rfl))
      have hav : ∀ job ∈ stampBatch cfg g₁.now jobs g₁.made, job.state = .available :=
        stampBatch_available jobs g₁.made
      simp only [List.nil_append]
      rw [wp_bind]
      refine wp_mono (Env.every_mono _) _ batching_sendBatchToSQS fun a x hx' => ?_
      obtain ⟨w₂, g₂⟩ := x
      obtain ⟨batch', hperm, hx'⟩ := hx'
      cases a with
      | error e =>
        have hx' : Broken cfg batch' w₁ g₁ (w₂, g₂) := hx'
        have hstore : w₂.store = w₁.store := hx'.store
        -- the first job of the batch is stored
        have hfirst : ∃ job ∈ stampBatch cfg g₁.now jobs g₁.made, job.id ≠ "" ∧
            (w₂.store.jobs.lookup job.id).isSome := by
          have hne : stampBatch cfg g₁.now jobs g₁.made ≠ [] := by
            cases hjobs : jobs with
            | nil => exact absurd (by rw [hjobs]; rfl) hempty
            | cons job rest =>
              rw [stampBatch]
              split <;> exact List.cons_ne_nil _ _
          obtain ⟨job, hj⟩ := List.exists_mem_of_ne_nil _ hne
          refine ⟨job, hj, hx.ids job hj, ?_⟩
          obtain ⟨r, hr, -⟩ := World.foldl_storeJob_stored (w := w.setClock g₁.now) hj hav
          have hworld : w₁ = _ := hx.world
          rw [hstore, hworld, hr]
          rfl
        obtain ⟨job, hj, hid, hs⟩ := hfirst
        rcases hx'.log with ⟨hlog, job', hj', hf⟩ | ⟨c, hlog⟩
        · have hlog : g₂ = g₁ := hlog
          rw [hlog]
          exact .torn hvalid hst hj hid hs (.inr ⟨job', hperm.mem_iff.mp hj', hf⟩)
        · have hlog : g₂ = { g₁ with failed := some c } := hlog
          rw [hlog]
          exact .torn hvalid hst hj hid hs (.inl fun h => by cases h)
      | ok u =>
        have hx' : AllSent cfg batch' w₁ g₁ (w₂, g₂) := hx'
        have hlog : g₂ = g₁ := hx'.log
        rw [hlog]
        refine (allSent_iff hperm hav hx.world hx').trans ?_
        constructor
        · rintro ⟨hids, hnew⟩
          exact .inl ⟨hvalid, hx.failed, fun job hj => hx'.fit job (hperm.mem_iff.mpr hj), hids, hnew⟩
        · rintro (h | h)
          · exact ⟨h.ids, h.unsent⟩
          · rcases h.refused with hr | ⟨hr, -⟩
            · rw [hvalid] at hr
              cases hr
            · have hr : g₁.stored = false := hr
              rw [hst] at hr
              cases hr

end

/-- Two jobs on two queues. -/
def twoJobs : List Job := [demoJob, { demoJob with id := "j2", queue := "mail" }]

/-- Both are stored and sent. -/
theorem batch_all_or_nothing_two : ∃ (l : List Job) (w' : World) (g : BatchLog),
    Runs (Rules.batching {}) (pushBatch demo twoJobs) ({}, {}) (.ok l) (w', g) ∧
      AllOrNothing demo w' (stampBatch demo g.now twoJobs g.made) (.ok l) := by
  have hrun : ((script (ghostAct (Rules.act {}) BatchLog.note)
      [.tick 0, .ok, .ok, .ok, .ok, .page ["mail", "default"], .ok, .ok, .ok, .ok, .ok, .ok, .ok, .ok,
        .ok, .ok] (pushBatch demo twoJobs) (({}, {}) : World × BatchLog)).map fun x =>
      (x.1.toOption.isSome, x.2.2)) = some (true, ⟨0, [], true, none⟩) := rfl
  obtain ⟨⟨a, w', g⟩, hscript, hout⟩ := Option.map_eq_some_iff.mp hrun
  obtain ⟨ha, hlog⟩ := Prod.mk.inj hout
  have hlog : g = ⟨0, [], true, none⟩ := hlog
  rw [hlog] at hscript
  cases a with
  | error e => cases ha
  | ok l =>
    have hrun := ghost_script_runs _ hscript
    refine ⟨l, w', _, hrun, (batch_all_or_nothing hrun).mpr (.inl ⟨rfl, rfl, ?_, ?_, ?_⟩)⟩
    · decide
    · decide
    · exact fun job _ => rfl

/-- The configuration of the runs, with one job that does not fit. -/
def tightDemo : Config :=
  { demo with marshalSize := fun job => some (if job.id = "j2" then 300000 else 240) }

/-- The second job of a batch does not fit: the first is stored all the same. -/
theorem oversized_batch_leaves_records : ¬ ∀ (cfg : Config) (ρ : Rules) (w w' : World)
    (jobs : List Job) (g : BatchLog) (a : Except Error (List Job)),
    Runs ρ.batching (pushBatch cfg jobs) (w, {}) a (w', g) →
    AllOrNothing cfg w' (stampBatch cfg g.now jobs g.made) a := by
  intro hall
  have hrun : ((script (ghostAct (Rules.act {}) BatchLog.note)
      [.tick 0, .ok, .ok, .ok, .ok, .page ["default"], .ok, .ok, .ok, .ok]
      (pushBatch tightDemo [demoJob, { demoJob with id := "j2" }]) (({}, {}) : World × BatchLog)).map
      fun x => (x.1.toOption.isNone, (x.2.1.store.jobs.lookup "j1").isSome, x.2.2)) =
      some (true, true, ⟨0, [], true, none⟩) := rfl
  obtain ⟨⟨a, w', g⟩, hscript, hout⟩ := Option.map_eq_some_iff.mp hrun
  obtain ⟨ha, hout⟩ := Prod.mk.inj hout
  obtain ⟨hs, hlog⟩ := Prod.mk.inj hout
  cases a with
  | ok l => cases ha
  | error e =>
    have h := hall _ _ _ w' _ g (.error e) (ghost_script_runs _ hscript)
    have hg : g = ⟨0, [], true, none⟩ := hlog
    rw [hg] at h
    have hnone := (h (batchJob tightDemo 0 "j1" demoJob) List.mem_cons_self (by decide)).1
    have hnone : w'.store.jobs.lookup "j1" = none := hnone
    rw [hnone] at hs
    cases hs

end OjsSqs
