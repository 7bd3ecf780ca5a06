import OjsSqs.System.Choices
import OjsSqs.System.Final

/-! # Live jobs can be completed

A job of a standard queue that is not over is not stuck either, as long as
nothing has been lost of it: from any reachable state a promoter or an operator,
the service and one worker can bring it to its end in a few steps. -/
namespace OjsSqs
open Calls

/-- The job fits into a message, and its queue delivers a message at least once. -/
structure Posts (cfg : Config) (job : Job) (w : World) : Prop where
  encodes : encodes cfg job = true
  delivers : w.sqs.queues.lookup (sqsQueueName cfg job.queue) ≠ some (some 0)

/-- Nothing is missing for a worker to complete the job. -/
def Alive (cfg : Config) (id : String) (w : World) : Prop :=
  ∃ r, w.store.jobs.lookup id = some r ∧ match r.state with
    | .active => True
    | .available => ∃ m ∈ w.sqs.messagesOf id, w.sqs.exhausted m = false
    | .scheduled | .retryable => ∀ t, Posts cfg (promotedJob cfg t r) w
    | .discarded => w.dead id = true ∧ ∀ t, Posts cfg (deadLetterJob cfg t r) w
    | .pending | .completed | .cancelled => False

/-- The worker has the job. -/
def Taken (id worker : String) (w : World) : Prop :=
  ∃ r, w.store.jobs.lookup id = some r ∧ r.state = .active ∧ r.workerID = worker

/-- A message is there that brings it to one. -/
def Arriving (id : String) (w : World) : Prop :=
  ∃ r m, w.store.jobs.lookup id = some r ∧ r.state = .available ∧ m ∈ w.sqs.messagesOf id ∧
    w.sqs.exhausted m = false

/-- The job was past its `expires_at` when a worker asked for it. -/
def Late (cfg : Config) (id : String) (w : World) : Prop :=
  ∃ r, w.store.jobs.lookup id = some r ∧ r.state = .discarded ∧ w.dead id = false ∧
    expired cfg w.clock (recordToJob r) = true

/-- The worker has completed the job, with the result when there is one, or the
job was late. -/
def Resolved (cfg : Config) (id worker result : String) (w : World) : Prop :=
  (∃ r, w.store.jobs.lookup id = some r ∧ r.state = .completed ∧ r.workerID = worker ∧
    (result ≠ "" → r.result = result)) ∨ Late cfg id w

variable {cfg : Config} {lib : CronLib} {ρ : Rules} {id worker : String} {w : World} {r : JobRecord}

theorem Resolved.over {result : String} (h : Resolved cfg id worker result w) : Over id w := by
  rcases h with ⟨r, hr, hs, -⟩ | ⟨r, hr, hs, hd, -⟩
  · exact ⟨r, hr, .inl hs⟩
  · exact ⟨r, hr, .inr (.inr ⟨hs, hd⟩)⟩

theorem fresh_of_none {o : Op} (h : o.newJobs = []) : o.Fresh w := by
  rw [Op.Fresh, Op.newIDs, h]
  exact ⟨List.nodup_nil, fun _ hi => absurd hi List.not_mem_nil⟩

/-! ## The worker -/

theorem moved_ackUpdates_workerID (r : JobRecord) (now result : String) :
    (r.moved .completed (ackUpdates now (some result))).workerID = r.workerID := by
  by_cases hne : result = "" <;> simp [JobRecord.moved, JobRecord.update, ackUpdates, resultUpdate,
    hne, applyUpdates, JobUpdate.apply]

theorem moved_ackUpdates_result (r : JobRecord) (now : String) {result : String} (hne : result ≠ "") :
    (r.moved .completed (ackUpdates now (some result))).result = result := by
  simp [JobRecord.moved, JobRecord.update, ackUpdates, resultUpdate, hne, applyUpdates,
    JobUpdate.apply]

section
variable (hρ : ρ.faults = false) (hstd : cfg.useFIFO = false)
include hρ

/-- **Ack.** -/
theorem taken_resolved (result : String) (hg : Agrees cfg w) (h : Taken id worker w) :
    Possible (SystemStep cfg lib ρ) 1 w (Resolved cfg id worker result) := by
  obtain ⟨r, hr, hs, rfl⟩ := h
  have hρ' : (ρ.reserving (SystemOp.inUse (.job (.ack id (some result))) w)).faults = false := hρ
  refine possible_return (o := .job (.ack id (some result))) (fresh_of_none rfl) (fun _ => rfl) ?_
  refine wp_may_of_every Rules.answers ?_
  refine wp_ack hρ' hr (fun hne => absurd hs hne) fun _ t _ => ?_
  have hm : Moves cfg .any w.bare (.ack id (some result)) w.bare
      (w.acked cfg id r (some result) t).bare := by
    rw [World.acked_bare]
    exact Good.acked hg hr hs (some result) t
  have h₀ : Extends (w.acked cfg id r (some result) t) (w.acked cfg id r (some result) t) :=
    .refl (Good.tidy hm.good).named fun _ _ => rfl
  refine wp_mono (Env.every_mono _) _ ((flows_extend _).advanceWorkflowOf id _ _ _ h₀) ?_
  intro _ w' hx job
  have hlook : (w.acked cfg id r (some result) t).store.jobs.lookup id =
      some (r.moved .completed (ackUpdates (cfg.formatTime t) (some result))) :=
    World.setJob_lookup _ _
  obtain ⟨r', hr', rfl⟩ := hx.stored id _ hlook
  refine .inl ⟨_, hr', rfl, moved_ackUpdates_workerID r _ result, fun hne => ?_⟩
  exact moved_ackUpdates_result r _ hne

include hstd in
/-- **Fetch**, from a standard queue. -/
theorem shown_taken (worker : String) {m : Message} (hg : Agrees cfg w)
    (hr : w.store.jobs.lookup id = some r) (hs : r.state = .available)
    (hm : m ∈ w.sqs.messagesOf id) (hx : w.sqs.exhausted m = false) (hv : m.visible = true)
    (hopen : (w.store.queueItem r.queue).paused = false) :
    Possible (SystemStep cfg lib ρ) 1 w fun w' => Taken id worker w' ∨ Late cfg id w' := by
  have hf : Fits cfg .any [] w.bare id r := hg.fits id r hr
  obtain ⟨hurl, job, hb, hexp⟩ := hf.about m hm
  obtain ⟨hmem, hid⟩ := SqsState.mem_messagesOf.mp hm
  rw [Message.jobID, hb] at hid
  obtain rfl : job.id = id := Option.some.inj hid
  have hd : w.dead job.id = false := hf.not_dead (by rw [hs]; decide)
  refine possible_op (o := .job (.fetch 2 [r.queue] 1 worker 0)) (fresh_of_none rfl) ?_
  have hnot : SqsState.isFIFO m.queueURL = false := hurl ▸ isFIFO_sqsQueueName hstd r.queue
  have hurl : m.queueURL = w.urlOf cfg r.queue := hurl.trans (hg.sound.urlOf r.queue).symm
  have hρ' : (ρ.reserving (SystemOp.inUse (.job (.fetch 2 [r.queue] 1 worker 0)) w)).faults =
    false := hρ
  refine wp_mono (Env.may_mono _) _ (may_fetch hρ' hg.sound.sqs hnot hopen hmem hurl hb hv hx hr) ?_
  rintro a w' ⟨hdone, hclock, hdead, r', hr', hcase⟩
  refine ⟨hdone, ?_⟩
  rcases hcase with ⟨hlate, rfl⟩ | ⟨d, rfl⟩
  · refine .inr ⟨_, hr', rfl, hdead.trans hd, ?_⟩
    rw [hclock, ← hlate]
    exact expired_congr ((JobRecord.moved_expiresAt r .discarded []).trans hexp.symm)
  · exact .inl ⟨_, hr', rfl, rfl⟩

theorem possible_agrees {n : Nat} {P : World → Prop} (hg : Agrees cfg w)
    (h : Possible (SystemStep cfg lib ρ) n w P) :
    Possible (SystemStep cfg lib ρ) n w fun w' => Agrees cfg w' ∧ P w' :=
  h.keeps hg fun _ _ _ hg hs => step_agrees hρ hg hs

include hstd in
/-- The queue is opened, the message shown, and the job fetched. -/
theorem arriving_taken (worker : String) (hg : Agrees cfg w) (h : Arriving id w) :
    Possible (SystemStep cfg lib ρ) 3 w fun w' => Taken id worker w' ∨ Late cfg id w' := by
  obtain ⟨r, m, hr, hs, hm, hx⟩ := h
  let w₁ := w.setQueues (w.store.queues.insert r.queue
    { w.store.queueItem r.queue with paused := false })
  let w₂ := w₁.setSqs (w₁.sqs.expireVisibility m.id)
  let m₂ : Message := { m with visible := true }
  have hresume : Possible (SystemStep cfg lib ρ) 1 w fun w' => w' = w₁ := by
    have hρ' : (ρ.reserving (SystemOp.inUse (.resumeQueue r.queue) w)).faults = false := hρ
    refine possible_return (o := .resumeQueue r.queue) trivial (fun _ => rfl) ?_
    exact may_resumeQueue (P := (· = w₁)) hρ' rfl
  have hshow : Possible (SystemStep cfg lib ρ) 1 w₁ fun w' => w' = w₂ :=
    .single (.env (.expireVisibility m.id) rfl (.expireVisibility m.id)) rfl
  have hmove := possible_agrees hρ hg (hresume.andThen fun w' hw' => hw' ▸ hshow)
  refine (hmove.andThen (n := 1) ?_).mono (le_refl 3) fun _ h => h
  rintro w' ⟨hg₂, rfl⟩
  have hopen : (w₂.store.queueItem r.queue).paused = false := by
    simp [w₂, w₁, Store.queueItem, World.setSqs, World.setQueues]
  refine shown_taken hρ hstd worker (m := m₂) hg₂ hr hs ?_ hx rfl hopen
  obtain ⟨hmem, hid⟩ := SqsState.mem_messagesOf.mp hm
  refine SqsState.mem_messagesOf.mpr ⟨List.mem_map.mpr ⟨m, hmem, if_pos rfl⟩, hid⟩

/-! ## Sending the job again -/

omit hρ in
/-- What is done with other jobs does not stop it. -/
theorem Arriving.aside {w' : World} (h : Arriving id w) (ha : w.Aside cfg id w') : Arriving id w' := by
  obtain ⟨r, m, hr, hs, hm, hx⟩ := h
  exact ⟨r, m, ha.record.trans hr, hs, ha.messages hm, (ha.exhausted m).trans hx⟩

omit hρ in
theorem Posts.aside {job : Job} {w' : World} (h : Posts cfg job w) (ha : w.Aside cfg id w') :
    Posts cfg job w' := by
  refine ⟨h.encodes, fun hzero => h.delivers ?_⟩
  let m : Message := ⟨0, sqsQueueName cfg job.queue, none, none, none, true, 0, none⟩
  have hx : w'.sqs.exhausted m = true := (SqsState.exhausted_unreceived rfl).mpr hzero
  exact (SqsState.exhausted_unreceived (m := m) rfl).mp ((ha.exhausted m).symm.trans hx)

omit hρ in
/-- A job that was made available and sent. -/
theorem arriving_sendJob {job : Job}
    (hurl : w.urlOf cfg job.queue = sqsQueueName cfg job.queue) (hp : Posts cfg job w)
    (hr : w.store.jobs.lookup id = some r) (hst : r.state = .available) (hid : job.id = id) :
    Arriving id (w.sendJob cfg job) := by
  have hsent : (w.sendJob cfg job).sqs = (w.openQueue cfg job.queue).sqs.send
      (sqsQueueName cfg job.queue) (outMessage cfg job job) := by
    have henc := hp.encodes
    rw [encodes] at henc
    cases he : encodeJob cfg job with
    | error e =>
      rw [he] at henc
      cases henc
    | ok body =>
      rw [World.sendJob, he, encodeJob_body he]
      simp only [World.setSqs, hurl]
  refine ⟨r, SqsState.sent (sqsQueueName cfg job.queue) (outMessage cfg job job)
    (w.openQueue cfg job.queue).sqs, ?_, hst, ?_, ?_⟩
  · rw [World.sendJob_store]
    exact hr
  · have hbody : (outMessage cfg job job).body.id = id := hid
    rw [hsent, SqsState.send_messagesOf, if_pos hbody]
    exact List.mem_append_right _ (List.mem_singleton_self _)
  · rw [hsent]
    refine (World.openQueue_exhausted cfg job.queue w _).trans ?_
    simp only [SqsState.exhausted, SqsState.sent]
    split
    · rename_i limit hlimit
      refine decide_eq_false fun hle => hp.delivers ?_
      rw [hlimit, Nat.le_zero.mp hle]
    · rfl

omit hρ in
/-- A promoter that has all the due jobs before it, this one among them. -/
theorem arriving_promoteAll {x : DueIndex} {ids : List String} (hin : id ∈ ids) (hnodup : ids.Nodup)
    (hr : w.store.jobs.lookup id = some r) (hid : r.id = id)
    (hurl : w.urlOf cfg r.queue = sqsQueueName cfg r.queue)
    (hp : Posts cfg (promotedJob cfg w.clock r) w) :
    Arriving id (ids.foldl (World.promoteDue cfg x) w) := by
  obtain ⟨before, after, rfl⟩ := List.append_of_mem hin
  obtain ⟨-, hafter, hapart⟩ := List.nodup_append.mp hnodup
  have hbefore : id ∉ before := fun h => hapart id h id (List.mem_cons_self ..) rfl
  rw [List.foldl_append, List.foldl_cons]
  have ha : w.Aside cfg id (before.foldl (World.promoteDue cfg x) w) := .promoteAll x hbefore w
  generalize before.foldl (World.promoteDue cfg x) w = w₁ at ha
  refine Arriving.aside ?_ (.promoteAll x (List.nodup_cons.mp hafter).1 _)
  rw [World.promoteDue, ha.record, hr]
  refine arriving_sendJob (r := r.moved .available (promoteUpdates cfg w₁.clock)) ?_ ?_ ?_ rfl hid
  · exact (ha.urls r.queue).trans hurl
  · have hp₁ : Posts cfg (promotedJob cfg w₁.clock r) w₁ := by
      rw [ha.clock]
      exact hp.aside ha
    exact ⟨hp₁.encodes, hp₁.delivers⟩
  · exact World.setJob_lookup _ _

/-- **A promoter**, when the job is due. -/
theorem waiting_arrives {x : DueIndex} (hg : Agrees cfg w) (hr : w.store.jobs.lookup id = some r)
    (hs : r.state = x.waiting) (hp : ∀ t, Posts cfg (promotedJob cfg t r) w) :
    Possible (SystemStep cfg lib ρ) 2 w (Arriving id) := by
  have hf : Fits cfg .any [] w.bare id r := hg.fits id r hr
  have hmark : w.marked x id = true := by
    cases x with
    | scheduled => exact hf.scheduled.trans (decide_eq_true hs)
    | retry => exact hf.retry.trans (decide_eq_true hs)
  obtain ⟨ms, hms⟩ := Option.isSome_iff_exists.mp hmark
  let t : Time := max w.clock (ms * 1000000)
  have htick : Possible (SystemStep cfg lib ρ) 1 w fun w' => w' = w.setClock t :=
    .single (.env (.tick t) rfl (.tick t (le_max_left _ _))) rfl
  refine htick.andThen (n := 1) ?_
  rintro w' rfl
  have hdue : (w.setClock t).store.isDue x (w.setClock t).clock.unixMilli id = true := by
    have hle : ms ≤ t.unixMilli := Int.le_ediv_of_mul_le (by decide) (le_max_right _ _)
    rw [Store.isDue, show ((w.setClock t).store.due x).lookup id = some ms from hms]
    exact decide_eq_true hle
  have hmay : ∀ ρ' : Rules, ρ'.faults = false →
      wp ρ'.env.may (promote cfg x) (fun _ => Arriving id) (w.setClock t) := by
    intro ρ' hρ'
    refine may_promote hρ' (arriving_promoteAll ((Store.mem_dueJobs _ _ _).mpr hdue) ?_ hr hf.id_eq
      (hg.sound.urlOf r.queue) ⟨(hp t).encodes, (hp t).delivers⟩)
    exact of_decide_eq_true ((Bool.and_eq_true _ _).mp (Store.isDuePage_dueJobs _ _ _)).1
  cases x with
  | scheduled =>
    exact possible_return (o := .job .promoteScheduled) (fresh_of_none rfl) (fun _ => rfl) (hmay _ hρ)
  | retry =>
    exact possible_return (o := .job .promoteRetries) (fresh_of_none rfl) (fun _ => rfl) (hmay _ hρ)

/-- **RetryDeadLetter.** -/
theorem dead_arrives (hg : Agrees cfg w) (hr : w.store.jobs.lookup id = some r)
    (hd : w.dead id = true) (hp : ∀ t, Posts cfg (deadLetterJob cfg t r) w) :
    Possible (SystemStep cfg lib ρ) 1 w (Arriving id) := by
  have hid : r.id = id := hg.named id r hr
  have hρ' : (ρ.reserving (SystemOp.inUse (.job (.retryDeadLetter id)) w)).faults = false := hρ
  refine possible_return (o := .job (.retryDeadLetter id)) (fresh_of_none rfl) (fun _ => rfl) ?_
  refine may_retryDeadLetter hρ' hd hr ?_
  refine arriving_sendJob (r := r.moved .available (deadLetterUpdates cfg w.clock)) ?_ ?_ ?_ rfl hid
  · exact hg.sound.urlOf r.queue
  · exact ⟨(hp w.clock).encodes, (hp w.clock).delivers⟩
  · exact World.setJob_lookup _ _

/-! ## All of it -/

/-- Who is to complete the job: the worker that has it, or the given one. -/
def takerOf (r : JobRecord) (worker : String) : String :=
  if r.state = .active then r.workerID else worker

include hstd in
/-- A live job comes to the worker, unless one has it already. -/
theorem alive_taken (worker : String) (hg : Agrees cfg w) (hr : w.store.jobs.lookup id = some r)
    (h : Alive cfg id w) :
    Possible (SystemStep cfg lib ρ) 5 w fun w' => Taken id (takerOf r worker) w' ∨ Late cfg id w' := by
  obtain ⟨r', hr', h⟩ := h
  obtain rfl : r' = r := Option.some.inj (hr'.symm.trans hr)
  have hthen : ∀ {n : Nat}, n ≤ 2 → r'.state ≠ .active →
      Possible (SystemStep cfg lib ρ) n w (Arriving id) → Possible (SystemStep cfg lib ρ) 5 w
        fun w' => Taken id (takerOf r' worker) w' ∨ Late cfg id w' := by
    intro n hn hidle harr
    rw [takerOf, if_neg hidle]
    have htaken := (possible_agrees hρ hg harr).andThen
      fun w' h' => arriving_taken hρ hstd worker h'.1 h'.2
    exact htaken.mono (Nat.add_le_add_right hn 3) fun _ h => h
  cases hs : r'.state with
  | active => exact .now (.inl ⟨r', hr, hs, (if_pos hs).symm⟩)
  | available =>
    rw [hs] at h
    obtain ⟨m, hm, hx⟩ := h
    exact hthen (Nat.zero_le 2) (by simp [hs]) (.now ⟨r', m, hr, hs, hm, hx⟩)
  | scheduled =>
    rw [hs] at h
    exact hthen (le_refl 2) (by simp [hs]) (waiting_arrives hρ (x := .scheduled) hg hr hs h)
  | retryable =>
    rw [hs] at h
    exact hthen (le_refl 2) (by simp [hs]) (waiting_arrives hρ (x := .retry) hg hr hs h)
  | discarded =>
    rw [hs] at h
    exact hthen (Nat.le_succ 1) (by simp [hs]) (dead_arrives hρ hg hr h.1 h.2)
  | pending | completed | cancelled =>
    rw [hs] at h
    exact h.elim

include hstd in
/-- **No live job is stuck**, on standard queues. From any reachable state of the whole backend, at
most six steps complete it, by the worker that has it or else by any worker, and
with any result, or discard it as late; it is still the job its client sent, and
it is over. -/
theorem job_can_complete (worker result : String) {t : Time} {ls : List SystemLabel}
    (h : SystemRun cfg lib ρ t ls w) (hr : w.store.jobs.lookup id = some r)
    (halive : Alive cfg id w) :
    ∃ ls' w' r', ls'.length ≤ 6 ∧ Path (SystemStep cfg lib ρ) w ls' w' ∧
      w'.store.jobs.lookup id = some r' ∧ r'.fixed = r.fixed ∧ Over id w' ∧
      (r'.state = .completed ∧ r'.workerID = takerOf r worker ∧ (result ≠ "" → r'.result = result) ∨
        r'.state = .discarded ∧ expired cfg w'.clock (recordToJob r') = true) := by
  have hg : Agrees cfg w := run_agrees hρ h
  have hcomes : Possible (SystemStep cfg lib ρ) 5 w
      fun w' => Taken id (takerOf r worker) w' ∨ Late cfg id w' := alive_taken hρ hstd worker hg hr halive
  have htaken := possible_agrees hρ hg hcomes
  have hend : Possible (SystemStep cfg lib ρ) 6 w (Resolved cfg id (takerOf r worker) result) := by
    refine Possible.andThen (m := 5) (n := 1) htaken ?_
    rintro w' ⟨hg', ht | hl⟩
    · exact taken_resolved hρ result hg' ht
    · exact .now (.inr hl)
  obtain ⟨ls', w', hlen, hpath, hres⟩ := hend
  obtain ⟨r', hr', hfixed⟩ := (run_sameJobs hρ hg hpath).2.stored id r hr
  refine ⟨ls', w', r', hlen, hpath, hr', hfixed, hres.over, ?_⟩
  rcases hres with ⟨r₁, hr₁, hs, hby, hres⟩ | ⟨r₁, hr₁, hs, -, hlate⟩
  · obtain rfl : r₁ = r' := Option.some.inj (hr₁.symm.trans hr')
    exact .inl ⟨hs, hby, hres⟩
  · obtain rfl : r₁ = r' := Option.some.inj (hr₁.symm.trans hr')
    exact .inr ⟨hs, hlate⟩

end

/-- A job that has failed once, and waits to be tried again. -/
theorem job_can_complete_retryable : ∃ (w w' : World) (ls' : List SystemLabel) (r' : JobRecord),
    demoState w = some .retryable ∧ ls'.length ≤ 6 ∧
    Path (SystemStep demo demoLib {}) w ls' w' ∧ w'.store.jobs.lookup "j1" = some r' ∧
    r'.state = .completed ∧ r'.workerID = "w2" ∧ r'.result = "1" := by
  have hrun : (SystemAct.play demo demoLib {} [pushFirst, fetchFirst, failFirst] (.start 0)).map
      (fun x => (demoState x.2, (x.2.store.jobs.lookup "j1").map (·.queue),
        x.2.sqs.queues.lookup "ojs-default", (x.2.store.jobs.lookup "j1").map (·.expiresAt))) =
      some (some .retryable, some "default", some none, some "") := rfl
  obtain ⟨⟨ls, w⟩, hplay, hrun⟩ := Option.map_eq_some_iff.mp hrun
  obtain ⟨hstate, hrun⟩ := Prod.mk.inj hrun
  obtain ⟨hqueue, hrun⟩ := Prod.mk.inj hrun
  obtain ⟨hlimit, hexpires⟩ := Prod.mk.inj hrun
  obtain ⟨r, hr, hs⟩ := Option.map_eq_some_iff.mp hstate
  rw [hr] at hqueue hexpires
  have hq : r.queue = "default" := Option.some.inj hqueue
  have hx : r.expiresAt = "" := Option.some.inj hexpires
  have halive : Alive demo "j1" w := by
    refine ⟨r, hr, ?_⟩
    rw [hs]
    refine fun t => ⟨rfl, ?_⟩
    have hname : sqsQueueName demo (promotedJob demo t r).queue = "ojs-default" := by
      rw [show (promotedJob demo t r).queue = "default" from hq]
      decide
    rw [hname, hlimit]
    exact fun h => nomatch h
  obtain ⟨ls', w', r', hlen, hpath, hr', hfixed, -, hend⟩ :=
    job_can_complete rfl rfl "w2" "1" (play_runs hplay) hr halive
  refine ⟨w, w', ls', r', hstate, hlen, hpath, hr', ?_⟩
  rcases hend with ⟨hcompleted, hby, hresult⟩ | ⟨-, hlate⟩
  · refine ⟨hcompleted, hby.trans (if_neg ?_), hresult (by decide)⟩
    simp [hs]
  · have hx' : r'.expiresAt = "" := (congrArg (·.expiresAt) hfixed).trans hx
    rw [expired, if_pos (show (recordToJob r').expiresAt = "" from hx')] at hlate
    cases hlate

end OjsSqs
