import OjsSqs.Lifecycle.Arrive
import OjsSqs.Lifecycle.Deliver

/-! # The invariant over whole runs

Every step of a system in which no call fails keeps the jobs' places in
agreement. What a run promises beyond that depends on its steps: whether each
cancel reached the messages of its job, and whether each send was accepted. -/
namespace OjsSqs
open Calls

variable {cfg : Config} {κ : Regime} {ρ : Rules} {w w' : World} {l : Label}

/-! ## The steps of the environment -/

/-- The messages change, but for nothing a job depends on. -/
theorem Good.showMessages (hg : Good cfg κ [] w) {f : Message → Message}
    (hf : ∀ m, SqsState.SameMessage m (f m)) (hrec : ∀ m, (f m).receipt = m.receipt) :
    Good cfg κ [] (w.setSqs (w.sqs.mapMessages f)) := by
  have hmo : ∀ i, (w.setSqs (w.sqs.mapMessages f)).sqs.messagesOf i = (w.sqs.messagesOf i).map f :=
    SqsState.messagesOf_map hf
  refine ⟨⟨hg.sound.sqs.map hf, hg.sound.urls, hg.sound.workflows⟩, fun i hi => ?_,
    fun i r hr => ?_⟩
  · have hu := hg.unknown i hi
    exact ⟨by rw [hmo, hu.messages]; rfl, hu.marked, hu.dead⟩
  · have hfit := hg.fits i r hr
    refine ⟨hfit.id_eq, fun m' hm' => ?_, ?_, fun hκ hs h => ?_, hfit.scheduled, hfit.retry,
      hfit.dead, hfit.noHandle, fun hs => ?_⟩
    · rw [hmo] at hm'
      obtain ⟨m, hm, rfl⟩ := List.mem_map.mp hm'
      exact (hfit.about m hm).same (hf m)
    · rw [hmo, List.length_map]
      exact hfit.messages
    · rw [hmo] at h
      exact hfit.present hκ hs (List.map_eq_nil_iff.mp h)
    · obtain ⟨h, hh, ho, hall⟩ := hfit.active hs
      refine ⟨h, hh, ho.keeps (SqsState.keeps_map hf), fun m' hm' => ?_⟩
      rw [hmo] at hm'
      obtain ⟨m, hm, rfl⟩ := List.mem_map.mp hm'
      rw [hrec]
      exact (hall m hm).imp_right fun ⟨_, hd, _⟩ => absurd hd List.not_mem_nil

theorem SqsState.same_expired (id : MessageId) (m : Message) :
    SqsState.SameMessage m (if m.id = id then { m with visible := true } else m) := by
  split <;> exact ⟨rfl, rfl, rfl, fun _ => .inl⟩

theorem Good.expireVisibility (hg : Good cfg κ [] w) (id : MessageId) :
    Good cfg κ [] (w.setSqs (w.sqs.expireVisibility id)) :=
  hg.showMessages (SqsState.same_expired id) fun m => by split <;> rfl

/-- The messages and the records are the same, and the queues of the backend. -/
theorem Good.congr (hg : Good cfg κ [] w) (hst : w'.store = w.store)
    (hm : w'.sqs.messages = w.sqs.messages) (hn : w'.sqs.nextMessage = w.sqs.nextMessage)
    (hu : w'.queueURLs = w.queueURLs) : Good cfg κ [] w' := by
  have hmo : ∀ i, w'.sqs.messagesOf i = w.sqs.messagesOf i := fun i => by
    rw [SqsState.messagesOf, hm, SqsState.messagesOf]
  have hs : w'.sqs.Sound := by
    obtain ⟨hnodup, hfresh, hrec⟩ := hg.sound.sqs
    exact ⟨by rw [hm]; exact hnodup, by rw [hm, hn]; exact hfresh, by rw [hm]; exact hrec⟩
  refine hg.untouched ⟨hs, by rw [hu]; exact hg.sound.urls, by rw [hst]; exact hg.sound.workflows⟩
    (fun i => ⟨by rw [hst], fun x => ?_, ?_, hmo i⟩)
    ⟨le_of_eq hn.symm, fun m h _ => ⟨m, hm ▸ h, rfl, rfl⟩⟩
  · rw [World.marked, hst, World.marked]
  · rw [World.dead, hst, World.dead]

theorem ensureDLQ_good (hρ : ρ.faults = false) {queue url : String} (hg : Good cfg κ [] w) :
    wp ρ.env.every (ensureDLQ cfg queue url)
      (fun _ w' => Good cfg κ [] w' ∧ w'.store = w.store) w := by
  rw [ensureDLQ, wp_bind, wp_sqs hρ rfl]
  simp only [SqsCall.run]
  rw [wp_bind, wp_sqs hρ rfl]
  simp only [SqsCall.run]
  rw [wp_bind, wp_sqs hρ rfl]
  refine ⟨hg.congr rfl ?_ ?_ rfl, rfl⟩
  · exact SqsState.createQueue_messages _
  · exact SqsState.createQueue_nextMessage _

/-! ## The conditions on a step -/

/-- Every cancel of the step reaches all messages of the job it cancels. -/
def CancelsReach (cfg : Config) (w : World) : Label → Prop
  | .op o _ => ∀ id, o.cancels cfg w id → CancelReaches id w
  | _ => True

/-- Every send of the step is accepted: a Push has succeeded, and the jobs a
promoter or a retry from the dead letter set finds fit into a message. -/
def SendsFit (cfg : Config) (ρ : Rules) (w : World) : Label → Prop
  | .op (.push _) a => ∃ j, a = Except.ok j
  | .op (.pushBatch _) _ => False
  | .op .promoteScheduled _ => PromotesFit cfg ρ .scheduled w
  | .op .promoteRetries _ => PromotesFit cfg ρ .retry w
  | .op (.retryDeadLetter id) _ => RevivalFits cfg ρ id w
  | _ => True

/-- What a regime asks of a step. -/
structure Allows (cfg : Config) (ρ : Rules) (κ : Regime) (w : World) (l : Label) : Prop where
  reach : κ.leftover = true ∨ CancelsReach cfg w l
  fit : κ.lossless = true → SendsFit cfg ρ w l

/-! ## One step -/

theorem Op.Fresh.storable_of {jobs : List Job} {ids : List String}
    (h : (Op.pushBatch jobs).Fresh w) (hsub : (Op.pushBatch jobs).newIDs ⊆ ids) :
    Storable (ρ.reserving ids) w jobs := by
  have hmem : ∀ job ∈ jobs, job.id ≠ "" → job.id ∈ (Op.pushBatch jobs).newIDs :=
    fun job hj hne => List.mem_filter.mpr ⟨List.mem_map_of_mem hj, by simpa using hne⟩
  refine ⟨h.1, fun job hj => ?_, fun job hj hne => hsub (hmem job hj hne)⟩
  by_cases hne : job.id = ""
  · exact .inl hne
  · exact .inr (h.2 _ (hmem job hj hne))

theorem Op.Fresh.storable {jobs : List Job} (h : (Op.pushBatch jobs).Fresh w) :
    Storable (ρ.reserving (Op.pushBatch jobs).newIDs) w jobs := h.storable_of fun _ => id

theorem Op.Fresh.push {job : Job} (h : (Op.push job).Fresh w) :
    job.id = "" ∨ w.store.jobs.lookup job.id = none := by
  by_cases hne : job.id = ""
  · exact .inl hne
  · exact .inr (h.2 _ (List.mem_filter.mpr ⟨List.mem_singleton_self _, by simpa using hne⟩))

theorem op_moves (hρ : ρ.faults = false) (hredrive : κ.lossless = true → ρ.redrive = false)
    (hg : Good cfg κ [] w) {o : Op} {a : o.Result} (hok : Allows cfg ρ κ w (.op o a))
    (hfresh : o.Fresh w) (hr : Runs (ρ.reserving o.newIDs).env (o.prog cfg) w a w') :
    Moves cfg κ w o w w' := by
  have hρ' : (ρ.reserving o.newIDs).faults = false := hρ
  cases o with
  | push job =>
    exact (wp_iff_runs _ _ _ _).mp (push_moves hρ' hg hfresh.push hok.reach) a w' hr hok.fit
  | pushBatch jobs =>
    cases hκ : κ.lossless with
    | true => exact absurd (hok.fit hκ) id
    | false =>
      exact (wp_iff_runs _ _ _ _).mp (pushBatch_moves hρ' hκ hg hfresh.storable) a w' hr
  | fetch fuel queues count worker vis =>
    exact (wp_iff_runs _ _ _ _).mp (fetch_moves hρ' hredrive hg) a w' hr
  | ack id result => exact (wp_iff_runs _ _ _ _).mp (ack_moves hρ' hg result) a w' hr
  | nack id e requeue => exact (wp_iff_runs _ _ _ _).mp (nack_moves hρ' hg e requeue) a w' hr
  | cancel id =>
    have hc := hok.reach.imp_right fun h => h id rfl
    exact ((wp_iff_runs _ _ _ _).mp (cancel_moves hρ' w (.cancel id)
      (fun _ _ h => .cancel h) hg hc) a w' hr).1
  | promoteScheduled =>
    exact (wp_iff_runs _ _ _ _).mp (promote_moves hρ' w hg .scheduled hok.fit) a w' hr
  | promoteRetries =>
    exact (wp_iff_runs _ _ _ _).mp (promote_moves hρ' w hg .retry hok.fit) a w' hr
  | retryDeadLetter id =>
    exact (wp_iff_runs _ _ _ _).mp (retryDeadLetter_moves hρ' hg hok.fit) a w' hr
  | deleteDeadLetter id => exact (wp_iff_runs _ _ _ _).mp (deleteDeadLetter_moves hρ' hg) a w' hr

/-- What a step does to the stored jobs: an operation takes its edges, the
environment leaves every record alone. -/
def Lawful (cfg : Config) (w : World) : Label → World → Prop
  | .op o _, w' => Follows cfg w w'.clock o w w'
  | _, w' => w'.store.jobs = w.store.jobs

theorem step_good (hρ : ρ.faults = false) (hredrive : κ.lossless = true → ρ.redrive = false)
    (hg : Good cfg κ [] w) (hok : Allows cfg ρ κ w l) (hs : Step cfg ρ w l w') :
    Good cfg κ [] w' ∧ (κ.leftover = false → Lawful cfg w l w') := by
  cases hs with
  | op o a hfresh _ hr =>
    have hm := op_moves hρ hredrive hg hok hfresh hr
    exact ⟨hm.good, hm.roams.follows⟩
  | expireVisibility id => exact ⟨hg.expireVisibility id, fun _ => rfl⟩
  | ensureDLQ queue url _ hr =>
    have hg₀ : Good cfg κ [] { w with background := w.background.erase (queue, url) } :=
      hg.congr rfl rfl rfl rfl
    obtain ⟨hg', hst⟩ := wp_runs (ensureDLQ_good hρ hg₀) hr
    exact ⟨hg', fun _ => congrArg Store.jobs hst⟩
  | tick t _ =>
    have hm : Moves cfg κ w .promoteRetries w (w.setClock t) := hg.aside t rfl rfl rfl rfl
    exact ⟨hm.good, fun _ => rfl⟩
  | expireKey fingerprint item _ _ =>
    have hm : Moves cfg κ w .promoteRetries w
        (w.setUniqueKeys (w.store.uniqueKeys.erase fingerprint)) :=
      hg.aside w.clock rfl rfl rfl rfl
    exact ⟨hm.good, fun _ => rfl⟩

theorem good_start (t : Time) : Good cfg κ [] (.start t) := by
  refine ⟨⟨⟨List.nodup_nil, fun _ h => absurd h List.not_mem_nil,
    fun _ h => absurd h List.not_mem_nil⟩, fun _ _ h => ?_, rfl⟩, fun _ _ => ⟨rfl, fun _ => rfl, rfl⟩,
    fun _ _ h => ?_⟩
  · cases h
  · cases h

/-- **The invariant of every run.** -/
theorem reachable_good (hρ : ρ.faults = false) (hredrive : κ.lossless = true → ρ.redrive = false)
    {ok : World → Label → Prop} (hok : ∀ w l, ok w l → Allows cfg ρ κ w l)
    (h : Reachable cfg ρ ok w) : Good cfg κ [] w :=
  h.invariant good_start fun _ _ _ hg hl hs => (step_good hρ hredrive hg (hok _ _ hl) hs).1

end OjsSqs
