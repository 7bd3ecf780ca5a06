import OjsSqs.Atomic.Steps
import OjsSqs.Atomic.Methods
import OjsSqs.Calls.Prog
import OjsSqs.Faults.Rules
import OjsSqs.Fifo.Window
import OjsSqs.Lifecycle.Messages

/-! # Promoters with failing calls

A due job has a marker, and once it has been promoted a message. The promoters
remove the marker first; when a later call of the job's turn fails, or a FIFO
queue drops the message as a repeat, the job may be left with neither. A ghost
keeps for each turn what its outcome depends on, and with it the jobs that
survive a run are known exactly. -/
namespace OjsSqs
open Calls

/-- The turn of a due job, from the moment its marker was removed: the state
before that, the clock that was read, and the call that failed. -/
structure Promotion where
  start : World × Fifo
  clock : Option Time := none
  failed : Option Call := none

abbrev PromoteLog := TurnLog Promotion

namespace PromoteLog

/-- Note the call if it has failed. -/
def fail (c : Call) (r : Answer c) (x : PromoteLog) : PromoteLog :=
  if callFailed c r then x.inTurn fun T => { T with failed := some c } else x

/-- A turn ends when the next job is read for the first time. -/
def note : Note (World × Fifo) Call Answer PromoteLog
  | .proc .now, t, _, _, x => x.inTurn fun T => { T with clock := some t }
  | .dynamo (.deleteDueItem _ id), .ok _, s, _, x => x.enter id { start := s }
  | .dynamo (.getJobItem id), r, _, _, x =>
    if (x.turns id).isSome then x.fail (.dynamo (.getJobItem id)) r else x.leave
  | c, r, _, _, x => x.fail c r

end PromoteLog

/-- The calls of a promoter, with what is noted of them. -/
def Rules.promoting (ρ : Rules) : Env ((World × Fifo) × PromoteLog) Call Answer :=
  ρ.fifo.withGhost PromoteLog.note

/-- One call of a promoter. -/
theorem wp_promoting {ρ : Rules} {c : Call} {Q : Answer c → (World × Fifo) × PromoteLog → Prop}
    {w : World} {F : Fifo} {g : PromoteLog}
    (h : wp ρ.env.every (.perform c) (fun a w' => Q a (deduplicate c a w w' F,
      PromoteLog.note c a (w, F) (deduplicate c a w w' F) g)) w) :
    wp ρ.promoting.every (.perform c) Q ((w, F), g) :=
  wp_ghost (wp_filter h)

section
variable (cfg : Config) (index : DueIndex)

/-- The job has a message in the queue. -/
def HasMessage (w : World) (id queue : String) : Prop :=
  ∃ m ∈ w.sqs.messagesOf id, m.queueURL = w.urlOf cfg queue

/-- The job still waits in its index, or it is available and has a message in
its queue. -/
def Safe (w : World) (id : String) : Prop :=
  ((w.store.due index).lookup id).isSome ∨
    ∃ r, w.store.jobs.lookup id = some r ∧ r.state = .available ∧ HasMessage cfg w id r.queue

/-- The queue of the job drops its message: it has accepted one with the same
deduplication id, less than a window ago. -/
def Drops (s : World × Fifo) (now : Time) (job : Job) : Prop :=
  s.2.repeats now (s.1.urlOf cfg job.queue) (outMessage cfg job job) = true

/-- No call of the turn has failed, the job fits into a message, and its queue
does not drop the message. -/
def Promotable (id : String) (T : Promotion) : Prop :=
  T.failed = none ∧ ∃ t r, T.clock = some t ∧ T.start.1.store.jobs.lookup id = some r ∧
    encodes cfg (promotedJob cfg t r) = true ∧ ¬ Drops cfg T.start t (promotedJob cfg t r)

/-- The job had a message before its turn, and it is available: it was so
before, or no request to the store has failed. -/
def SentBefore (id : String) (T : Promotion) : Prop :=
  ∃ r, T.start.1.store.jobs.lookup id = some r ∧ HasMessage cfg T.start.1 id r.queue ∧
    (r.state = .available ∨ ∀ d, T.failed ≠ some (.dynamo d))

/-- The turn leaves the job safe. -/
def Survives (id : String) (T : Promotion) : Prop := Promotable cfg id T ∨ SentBefore cfg id T

/-- Every job is stored under its identifier. -/
def World.NamedJobs (w : World) : Prop := ∀ id r, w.store.jobs.lookup id = some r → r.id = id

/-- What belongs to the job `m` is as it was. -/
structure KeepsJob (m : String) (w w' : World) : Prop where
  job : w'.store.jobs.lookup m = w.store.jobs.lookup m
  due : (w'.store.due index).lookup m = (w.store.due index).lookup m
  messages : w'.sqs.messagesOf m = w.sqs.messagesOf m
  urls : ∀ queue, w'.urlOf cfg queue = w.urlOf cfg queue

variable {cfg index} {m id : String} {w w' w'' : World}

/-- A standard queue drops nothing. -/
theorem not_drops_standard (hstd : cfg.useFIFO = false) (s : World × Fifo) (now : Time) (job : Job) :
    ¬ Drops cfg s now job := by
  have hnone : (outMessage cfg job job).deduplicationID = none := by
    rw [outMessage, hstd]
    rfl
  rw [Drops, s.2.not_repeats_none hnone]
  exact Bool.false_ne_true

theorem KeepsJob.refl (m : String) (w : World) : KeepsJob cfg index m w w :=
  ⟨rfl, rfl, rfl, fun _ => rfl⟩

theorem KeepsJob.trans (h : KeepsJob cfg index m w w') (h' : KeepsJob cfg index m w' w'') :
    KeepsJob cfg index m w w'' :=
  ⟨h'.job.trans h.job, h'.due.trans h.due, h'.messages.trans h.messages,
    fun queue => (h'.urls queue).trans (h.urls queue)⟩

theorem KeepsJob.hasMessage (h : KeepsJob cfg index m w w') (queue : String) :
    HasMessage cfg w' m queue ↔ HasMessage cfg w m queue := by
  rw [HasMessage, h.messages, h.urls, ← HasMessage]

theorem KeepsJob.safe (h : KeepsJob cfg index m w w') :
    Safe cfg index w' m ↔ Safe cfg index w m := by
  simp only [Safe, h.due, h.job, h.hasMessage]

/-! ## What a turn does to the world -/

theorem keepsJob_removeDue (hm : m ≠ id) : KeepsJob cfg index m w (w.removeDue index id) where
  job := rfl
  due := by
    simp only [World.removeDue, Store.setDue, Function.update_self]
    exact AList.lookup_erase_ne hm
  messages := rfl
  urls _ := rfl

theorem keepsJob_setClock (t : Time) : KeepsJob cfg index m w (w.setClock t) :=
  ⟨rfl, rfl, rfl, fun _ => rfl⟩

theorem keepsJob_setJob (hm : m ≠ id) {r : JobRecord} : KeepsJob cfg index m w (w.setJob id r) :=
  ⟨AList.lookup_insert_ne hm, rfl, rfl, fun _ => rfl⟩

theorem keepsJob_openQueue (queue : String) : KeepsJob cfg index m w (w.openQueue cfg queue) := by
  have hsame : (w.openQueue cfg queue).store = w.store ∧
      (w.openQueue cfg queue).sqs.messagesOf m = w.sqs.messagesOf m := by
    rw [World.openQueue]
    cases w.queueURLs.lookup queue with
    | some url => exact ⟨rfl, rfl⟩
    | none => exact ⟨rfl, SqsState.createQueue_messagesOf _ m⟩
  exact ⟨by rw [hsame.1], by rw [hsame.1], hsame.2, w.openQueue_urlOf cfg queue⟩

theorem keepsJob_send {url : String} {o : OutMessage} (hm : m ≠ o.body.id) :
    KeepsJob cfg index m w (w.setSqs (w.sqs.send url o)) where
  job := rfl
  due := rfl
  messages := by
    simp only [World.setSqs, SqsState.send_messagesOf, if_neg (Ne.symm hm), List.append_nil]
  urls _ := rfl

theorem hasMessage_send {url queue : String} {o : OutMessage} (hid : o.body.id = id)
    (hurl : url = w.urlOf cfg queue) : HasMessage cfg (w.setSqs (w.sqs.send url o)) id queue :=
  ⟨w.sqs.sent url o, SqsState.mem_messagesOf.mpr
    ⟨List.mem_append_right _ (List.mem_singleton_self _), congrArg some hid⟩, hurl⟩

end

section
variable (cfg : Config) (index : DueIndex)

/-- The turns of the loop. A job that is ready has its marker. -/
def promoteTurns : Turns ((World × Fifo) × PromoteLog) String String where
  key id := id
  Same m x x' := x'.2.turns m = x.2.turns m ∧ KeepsJob cfg index m x.1.1 x'.1.1
  Ready id x := x.2.turns id = none ∧ ((x.1.1.store.due index).lookup id).isSome ∧
    ∀ r, x.1.1.store.jobs.lookup id = some r → r.id = id
  Done id x := (x.2.turns id = none → Safe cfg index x.1.1 id) ∧
    ∀ T, x.2.turns id = some T → (Safe cfg index x.1.1 id ↔ Survives cfg id T)
  refl m x := ⟨rfl, .refl m x.1.1⟩
  trans h h' := ⟨h'.1.trans h.1, h.2.trans h'.2⟩
  ready h hr := by rwa [h.1, h.2.due, h.2.job]
  done h hd := by rwa [h.1, h.2.safe]

end

/-! ## One turn -/

section
variable {cfg : Config} {index : DueIndex} {ρ : Rules} {w : World} {F : Fifo} {g y : PromoteLog}
  {id : String} {T : Promotion}

theorem promoting_dynamo (h : TurnLog.At y id T g) {c : DynamoCall} (hc : c.isPaged = false)
    (hnote : ∀ r s s', PromoteLog.note (.dynamo c) r s s' g = g.fail (.dynamo c) r)
    {Q : Except AwsError c.Answer → (World × Fifo) × PromoteLog → Prop}
    (hfail : ∀ msg g', TurnLog.At y id { T with failed := some (.dynamo c) } g' →
      Q (.error (.other msg)) ((w, F), g'))
    (hrun : Q (w.store.run c).1 ((w.setStore (w.store.run c).2, F), g)) :
    wp ρ.promoting.every (dynamo c) Q ((w, F), g) := by
  refine wp_promoting (wp_dynamo_faulty hc (fun msg => ?_) ?_)
  · rw [hnote]
    exact hfail msg _ (h.inTurn fun T => { T with failed := some (.dynamo c) })
  · rw [hnote, PromoteLog.fail, Store.run_not_failed]
    exact hrun

theorem promoting_sqs (h : TurnLog.At y id T g) {c : SqsCall} (hc : c.isReceive = false)
    (hb : ∀ url entries, c ≠ .sendMessageBatch url entries)
    {Q : Except AwsError c.Answer → (World × Fifo) × PromoteLog → Prop}
    (hfail : ∀ msg g', TurnLog.At y id { T with failed := some (.sqs c) } g' →
      Q (.error (.other msg)) ((w, F), g'))
    (hrun : Q (c.run w.sqs).1
      (deduplicate (.sqs c) (c.run w.sqs).1 w (w.setSqs (c.run w.sqs).2) F, g)) :
    wp ρ.promoting.every (sqs c) Q ((w, F), g) := by
  have hnote : ∀ r s s', PromoteLog.note (.sqs c) r s s' g = g.fail (.sqs c) r :=
    fun _ _ _ => rfl
  refine wp_promoting (wp_sqs_faulty hc hb (fun msg => ?_) ?_)
  · have hkeep : deduplicate (.sqs c) (.error (.other msg)) w w F = (w, F) := by
      cases c <;> rfl
    rw [hkeep]
    exact hfail msg _ (h.inTurn fun T => { T with failed := some (.sqs c) })
  · rw [hnote, PromoteLog.fail, SqsCall.run_not_failed]
    exact hrun

theorem promoting_getOrCreateQueueURL (h : TurnLog.At y id T g) {queue : String}
    {Q : Except Error String → (World × Fifo) × PromoteLog → Prop}
    (hfail : ∀ e c g', TurnLog.At y id { T with failed := some (.sqs c) } g' →
      Q (.error e) ((w, F), g'))
    (hok : Q (.ok (w.urlOf cfg queue)) ((w.openQueue cfg queue, F), g)) :
    wp ρ.promoting.every (getOrCreateQueueURL cfg queue) Q ((w, F), g) := by
  rw [getOrCreateQueueURL, wp_bind]
  refine wp_promoting ?_
  rw [← proc, wp_lookupURL]
  simp only [World.urlOf, World.openQueue] at hok
  cases hq : w.queueURLs.lookup queue with
  | some url =>
    rw [hq] at hok
    exact hok
  | none =>
    rw [hq] at hok
    simp only
    rw [wp_bind]
    refine promoting_sqs h rfl (fun _ _ hd => by cases hd) (fun msg g => hfail _ _ g) ?_
    simp only [SqsCall.run]
    rw [wp_bind]
    refine wp_promoting ?_
    rw [← proc, wp_goEnsureDLQ, wp_bind]
    refine wp_promoting ?_
    rw [← proc, wp_cacheURL]
    exact hok

end

section
variable {cfg : Config} {index : DueIndex} {ρ : Rules} {x x' : (World × Fifo) × PromoteLog} {id : String}
  {T : Promotion} {r r' : JobRecord} {w w' : World} {F : Fifo}

/-- A job whose marker is gone, with the messages it had. -/
theorem safe_unsent (hdue : (w'.store.due index).lookup id = none)
    (hjob : w'.store.jobs.lookup id = some r') (hqueue : r'.queue = r.queue)
    (hm : w'.sqs.messagesOf id = w.sqs.messagesOf id)
    (hu : ∀ queue, w'.urlOf cfg queue = w.urlOf cfg queue) :
    Safe cfg index w' id ↔ r'.state = .available ∧ HasMessage cfg w id r.queue := by
  have hsame : HasMessage cfg w' id r'.queue ↔ HasMessage cfg w id r.queue := by
    rw [HasMessage, hm, hu, hqueue, ← HasMessage]
  rw [Safe, hdue, hjob, ← hsame]
  constructor
  · rintro (h | ⟨r'', hr, h⟩)
    · cases h
    · cases hr
      exact h
  · exact fun h => .inr ⟨r', rfl, h⟩

theorem survives_failed (hr : T.start.1.store.jobs.lookup id = some r) {d : DynamoCall}
    (hf : T.failed = some (.dynamo d)) :
    Survives cfg id T ↔ r.state = .available ∧ HasMessage cfg T.start.1 id r.queue := by
  constructor
  · rintro (⟨hnone, -⟩ | ⟨r₀, hr₀, hm, hs⟩)
    · cases hf.symm.trans hnone
    · cases hr.symm.trans hr₀
      exact ⟨hs.resolve_right fun hd => hd d hf, hm⟩
  · exact fun ⟨hs, hm⟩ => .inr ⟨r, hr, hm, .inl hs⟩

theorem survives_unsent (hr : T.start.1.store.jobs.lookup id = some r)
    (hf : ∀ d, T.failed ≠ some (.dynamo d)) (hp : ¬ Promotable cfg id T) :
    Survives cfg id T ↔ HasMessage cfg T.start.1 id r.queue := by
  constructor
  · rintro (h | ⟨r₀, hr₀, hm, -⟩)
    · exact absurd h hp
    · cases hr.symm.trans hr₀
      exact hm
  · exact fun hm => .inr ⟨r, hr, hm, .inr hf⟩

theorem not_promotable {c : Call} (hf : T.failed = some c) : ¬ Promotable cfg id T := by
  rintro ⟨hnone, -⟩
  cases hf.symm.trans hnone

/-- What a turn is to come to: the job's own part, and the others'. -/
def TurnDone (cfg : Config) (index : DueIndex) (id : String) (x x' : (World × Fifo) × PromoteLog) : Prop :=
  (promoteTurns cfg index).Done id x' ∧ ∀ k, k ≠ id → (promoteTurns cfg index).Same k x x'

/-- A turn that has not removed the marker. -/
theorem turnDone_idle (hx : (promoteTurns cfg index).Ready id x) (hw : x'.1.1 = x.1.1)
    (ht : x'.2.turns = x.2.turns) : TurnDone cfg index id x x' := by
  refine ⟨⟨fun _ => .inl ?_, fun T hT => ?_⟩, fun k _ => ⟨by rw [ht], by rw [hw]; exact .refl k _⟩⟩
  · rw [hw]
    exact hx.2.1
  · rw [ht, hx.1] at hT
    cases hT

/-- A turn that has. -/
theorem turnDone_removed (h : TurnLog.At x.2 id T x'.2)
    (hkeeps : ∀ k, k ≠ id → KeepsJob cfg index k x.1.1 x'.1.1)
    (hiff : Safe cfg index x'.1.1 id ↔ Survives cfg id T) : TurnDone cfg index id x x' := by
  refine ⟨⟨fun hnone => ?_, fun T' hT' => ?_⟩, fun k hk => ⟨h.other hk, hkeeps k hk⟩⟩
  · cases h.self.symm.trans hnone
  · cases h.self.symm.trans hT'
    exact hiff

/-- The world of a turn once the marker is removed and the clock is read. -/
def unmarked (index : DueIndex) (id : String) (t : Time) (w : World) : World :=
  (w.removeDue index id).setClock t

theorem unmarked_due (t : Time) : ((unmarked index id t w).store.due index).lookup id = none := by
  simp only [unmarked, World.setClock, World.removeDue, Store.setDue, Function.update_self]
  exact AList.lookup_erase _ _

theorem keepsJob_unmarked (t : Time) {k : String} (hk : k ≠ id) :
    KeepsJob cfg index k w (unmarked index id t w) :=
  (keepsJob_removeDue hk).trans (keepsJob_setClock t)

/-- The world of a turn once the record says available. -/
def promoted (cfg : Config) (index : DueIndex) (id : String) (t : Time) (r : JobRecord)
    (w : World) : World :=
  (unmarked index id t w).setJob id (r.moved .available (promoteUpdates cfg t))

theorem keepsJob_promoted (t : Time) {k : String} (hk : k ≠ id) :
    KeepsJob cfg index k w (promoted cfg index id t r w) :=
  (keepsJob_unmarked t hk).trans (keepsJob_setJob hk)

/-- A turn that stops after the record was written: the job is safe if it had a
message. -/
theorem turnDone_unsent {t : Time} {w' : World} {g : PromoteLog}
    (hr : x.1.1.store.jobs.lookup id = some r)
    (hkeeps : ∀ k, KeepsJob cfg index k (promoted cfg index id t r x.1.1) w')
    (h : TurnLog.At x.2 id T g) (hstart : T.start = x.1) (hf : ∀ d, T.failed ≠ some (.dynamo d))
    (hp : ¬ Promotable cfg id T) : TurnDone cfg index id x ((w', F), g) := by
  refine turnDone_removed h (fun k hk => (keepsJob_promoted t hk).trans (hkeeps k)) ?_
  have hjob : w'.store.jobs.lookup id = some (r.moved .available (promoteUpdates cfg t)) :=
    (hkeeps id).job.trans (AList.lookup_insert _)
  rw [safe_unsent ((hkeeps id).due.trans (unmarked_due t)) hjob (JobRecord.moved_queue ..)
    (hkeeps id).messages (hkeeps id).urls, survives_unsent (hstart ▸ hr) hf hp, hstart]
  exact and_iff_right rfl

/-- The send of a promoted job, once its record says available. -/
theorem promoting_send {t : Time} (hr : x.1.1.store.jobs.lookup id = some r) (hid : r.id = id)
    {g : PromoteLog} (h : TurnLog.At x.2 id { start := x.1, clock := some t } g) :
    wp ρ.promoting.every (sendToSQS cfg (promotedJob cfg t r))
      (fun _ x' => TurnDone cfg index id x x') ((promoted cfg index id t r x.1.1, x.1.2), g) := by
  have hfailed : ∀ (c : SqsCall) (d : DynamoCall), some (Call.sqs c) ≠ some (Call.dynamo d) :=
    fun _ _ h => by cases h
  rw [sendToSQS, wp_bind]
  refine promoting_getOrCreateQueueURL h (fun e c g hg => ?_) ?_
  · exact turnDone_unsent hr (fun k => .refl k _) hg rfl (hfailed c) (not_promotable rfl)
  · cases he : encodeJob cfg (promotedJob cfg t r) with
    | error e =>
      refine turnDone_unsent hr (fun k => keepsJob_openQueue _) h rfl (fun _ h => by cases h) ?_
      rintro ⟨-, t', r', ht, hr', henc, -⟩
      cases ht
      cases hr.symm.trans hr'
      rw [encodes, he] at henc
      cases henc
    | ok body =>
      obtain rfl := encodeJob_body he
      simp only
      rw [wp_bind]
      refine promoting_sqs h rfl (fun _ _ hd => by cases hd) (fun msg g hg => ?_) ?_
      · exact turnDone_unsent hr (fun k => keepsJob_openQueue _) hg rfl (hfailed _)
          (not_promotable rfl)
      · have hclock : ((promoted cfg index id t r x.1.1).openQueue cfg r.queue).clock = t :=
          World.openQueue_clock cfg _ _
        have hstart : ∀ {P : Prop}, (Promotable cfg id { start := x.1, clock := some t } → P) ↔
            (¬ Drops cfg x.1 t (promotedJob cfg t r) → P) := by
          refine ⟨fun hP hd => hP ⟨rfl, t, r, rfl, hr, by rw [encodes, he]; rfl, hd⟩, ?_⟩
          rintro hP ⟨-, t', r', ht, hr', -, hd⟩
          cases ht
          cases hr.symm.trans hr'
          exact hP hd
        show TurnDone cfg index id x (ite _ _ _, g)
        split
        · -- a FIFO queue has dropped the message
          rename_i hrep
          refine turnDone_unsent hr (fun k => keepsJob_openQueue _) h rfl (fun _ h => by cases h) ?_
          refine hstart.mpr fun hd => hd ?_
          rw [show (promotedJob cfg t r).queue = r.queue from rfl, hclock] at hrep
          exact hrep
        · -- the message is there
          rename_i hrep
          refine turnDone_removed h (fun k hk => ?_) (iff_of_true (.inr ?_) (.inl ?_))
          · refine ((keepsJob_promoted t hk).trans (keepsJob_openQueue _)).trans (keepsJob_send ?_)
            exact fun heq => hk (heq.trans hid)
          · have hopen : KeepsJob cfg index id (promoted cfg index id t r x.1.1)
                ((promoted cfg index id t r x.1.1).openQueue cfg r.queue) := keepsJob_openQueue _
            refine ⟨_, hopen.job.trans (AList.lookup_insert _), rfl, hasMessage_send hid ?_⟩
            rw [JobRecord.moved_queue]
            exact (hopen.urls r.queue).symm
          · refine ⟨rfl, t, r, rfl, hr, by rw [encodes, he]; rfl, fun hd => hrep ?_⟩
            rw [show (promotedJob cfg t r).queue = r.queue from rfl, hclock]
            exact hd

/-- A turn that stops before the record is written: the job is safe if it was
available and had a message. -/
theorem turnDone_unwritten {t : Time} {g : PromoteLog} (hr : x.1.1.store.jobs.lookup id = some r)
    (h : TurnLog.At x.2 id T g) (hstart : T.start = x.1) {d : DynamoCall}
    (hf : T.failed = some (.dynamo d)) :
    TurnDone cfg index id x ((unmarked index id t x.1.1, x.1.2), g) := by
  refine turnDone_removed h (fun k hk => keepsJob_unmarked t hk) ?_
  rw [survives_failed (hstart ▸ hr) hf, hstart]
  exact safe_unsent (unmarked_due t) hr rfl rfl fun _ => rfl

/-- The update of a promoted job's record, and its send. -/
theorem promoting_update {t : Time} (hr : x.1.1.store.jobs.lookup id = some r) {g : PromoteLog}
    (h : TurnLog.At x.2 id { start := x.1, clock := some t } g)
    {k : Except Error Unit → M (Option Error)} (herr : ∀ e, ∃ e', k (.error e) = pure e')
    (hok : wp ρ.promoting.every (k (.ok ())) (fun _ x' => TurnDone cfg index id x x')
      ((promoted cfg index id t r x.1.1, x.1.2), g)) :
    wp ρ.promoting.every (updateJobState id .available (promoteUpdates cfg t) >>= k)
      (fun _ x' => TurnDone cfg index id x x') ((unmarked index id t x.1.1, x.1.2), g) := by
  have hend : ∀ e d g, TurnLog.At x.2 id { start := x.1, clock := some t, failed := some (.dynamo d) } g →
      wp ρ.promoting.every (k (.error e)) (fun _ x' => TurnDone cfg index id x x')
        ((unmarked index id t x.1.1, x.1.2), g) := by
    intro e d g hg
    obtain ⟨e', he⟩ := herr e
    rw [he]
    exact turnDone_unwritten hr hg rfl rfl
  have hread : ∀ a w w', PromoteLog.note (.dynamo (.getJobItem id)) a w w' g =
      PromoteLog.fail (.dynamo (.getJobItem id)) a g := by
    intro a w w'
    rw [PromoteLog.note, h.self]
    exact if_pos rfl
  rw [wp_bind, updateJobState, wp_bind, getJob, wp_bind]
  refine promoting_dynamo h rfl hread (fun msg g hg => hend _ _ g hg) ?_
  have hstored : (unmarked index id t x.1.1).store.jobs.lookup id = some r := hr
  simp only [Store.run, hstored]
  rw [wp_pure]
  simp only
  rw [request, wp_bind]
  refine promoting_dynamo h rfl (fun _ _ _ => rfl) (fun msg g hg => hend _ _ g hg) ?_
  simp only [Store.run, World.setStore_store, hstored]
  exact hok

theorem promoting_promoteOne (hx : (promoteTurns cfg index).Ready id x) :
    wp ρ.promoting.every (promoteOne cfg index id) (fun _ x' => TurnDone cfg index id x x') x := by
  have hleave : ∀ r s s', PromoteLog.note (.dynamo (.getJobItem id)) r s s' x.2 = x.2.leave := by
    intro r s s'
    rw [PromoteLog.note, hx.1]
    exact if_neg Bool.false_ne_true
  have hout : ∀ c (a : Answer c), PromoteLog.fail c a x.2.leave = x.2.leave := by
    intro c a
    rw [PromoteLog.fail, TurnLog.inTurn_none rfl, ite_self]
  rw [promoteOne, wp_bind, getJob, wp_bind]
  refine wp_promoting (wp_dynamo_faulty rfl (fun msg => ?_) ?_)
  · exact turnDone_idle hx rfl (by rw [hleave]; rfl)
  · rw [hleave]
    simp only [Store.run]
    cases hr : x.1.1.store.jobs.lookup id with
    | none => exact turnDone_idle hx rfl rfl
    | some r =>
      simp only [wp_pure]
      rw [wp_bind, removeDueJob, request, wp_bind]
      refine wp_promoting (wp_dynamo_faulty rfl (fun msg => ?_) ?_)
      · -- the marker stays
        have hlog := congrArg TurnLog.turns
          (hout (.dynamo (.deleteDueItem index id)) (.error (.other msg)))
        exact turnDone_idle hx rfl hlog
      · have hlog : TurnLog.At x.2 id { start := x.1 } (x.2.leave.enter id { start := x.1 }) :=
          ⟨rfl, rfl⟩
        simp only [Store.run]
        rw [wp_pure]
        simp only
        rw [wp_bind]
        refine wp_promoting (wp_timeNow fun t _ => ?_)
        have hlog' := hlog.inTurn fun T => { T with clock := some t }
        refine promoting_update hr hlog' (fun e => ⟨_, rfl⟩) ?_
        simp only
        rw [wp_bind]
        refine wp_mono (Env.every_mono _) _ (promoting_send hr (hx.2.2 r hr) hlog') fun a x' hd => ?_
        cases a <;> exact hd

end

/-! ## The run -/

section
variable {cfg : Config} {index : DueIndex} {ρ : Rules} {w w' : World} {F F' : Fifo}

/-- A due query that fails changes nothing, and one that does not answers a
page of due jobs. -/
theorem wp_getDueJobs_faulty {nowMs : Int} {Q : Except Error (List String) → World → Prop}
    (hfail : ∀ e, Q (.error e) w)
    (hok : ∀ ids, w.store.isDuePage index nowMs ids = true → Q (.ok ids) w) :
    wp ρ.env.every (getDueJobs index nowMs) Q w := by
  rw [getDueJobs, wp_bind]
  intro r w' he
  obtain ⟨ch, s', -, hact, rfl⟩ := Rules.env_dynamo he
  cases ch with
  | page ids =>
    obtain ⟨hids, hr⟩ := Option.ite_none_right_eq_some.mp hact
    cases hr
    exact hok ids ((Bool.and_eq_true _ _).mp hids).1
  | fault msg =>
    cases hact
    exact hfail _
  | noIndex =>
    -- the scan of the table
    cases hact
    intro r w' he
    obtain ⟨ch, s', -, hact, rfl⟩ := Rules.env_dynamo he
    cases ch with
    | page ids =>
      obtain ⟨hids, hr⟩ := Option.ite_none_right_eq_some.mp hact
      cases hr
      exact hok ids hids
    | fault msg =>
      cases hact
      exact hfail _
    | _ => cases hact
  | _ => cases hact

theorem promoting_promoteAll {x : (World × Fifo) × PromoteLog} (ids : List String) (firstErr : Option Error)
    (hnodup : ids.Nodup) (hready : ∀ id ∈ ids, (promoteTurns cfg index).Ready id x) :
    wp ρ.promoting.every (promoteAll cfg index ids firstErr)
      (fun _ x' => (promoteTurns cfg index).After ids x x') x := by
  refine Turns.wp_loop (promoteTurns cfg index) (Env.every_mono _) id (fun _ => rfl)
    (fun _ _ _ => rfl) (fun id x hx => promoting_promoteOne hx) ids firstErr ?_ hready
  exact (List.map_id ids).symm ▸ hnodup

/-- **The jobs that survive a run of a promoter.** A job with a marker at the
start is safe afterwards when its marker was not removed; otherwise it is safe
exactly when its turn lets it survive. -/
theorem promote_keeps {a : Option Error} {y : PromoteLog} (hn : w.NamedJobs)
    (hr : Runs ρ.promoting (promote cfg index) ((w, F), {}) a ((w', F'), y)) :
    ∀ id, ((w.store.due index).lookup id).isSome →
      (y.turns id = none → Safe cfg index w' id) ∧
      ∀ T, y.turns id = some T → (Safe cfg index w' id ↔ Survives cfg id T) := by
  intro id hid
  refine wp_runs (Q := fun _ x' => (promoteTurns cfg index).Done id x') ?_ hr
  rw [promote, wp_bind]
  refine wp_promoting (wp_timeNow fun t _ => ?_)
  have hready : ∀ id, ((w.store.due index).lookup id).isSome →
      (promoteTurns cfg index).Ready id ((w.setClock t, F), {}) := fun id h => ⟨rfl, h, hn id⟩
  rw [wp_bind]
  have honly : (getDueJobs index t.unixMilli).Only
      fun c => c = .dynamo (.queryDue index t.unixMilli) ∨ c = .dynamo (.scanDue index t.unixMilli) := by
    refine Prog.only_bind (Prog.only_perform (.inl rfl)) fun a => ?_
    split
    · exact Prog.only_pure _
    · refine Prog.only_bind (Prog.only_perform (.inr rfl)) fun a => ?_
      split <;> exact Prog.only_pure _
    · exact Prog.only_pure _
  refine wp_ghost_only honly (fun c r w w' hc => ?_) ?_
  · -- no turn is going on
    rcases hc with rfl | rfl <;> exact ite_self _
  · have hquiet : (getDueJobs index t.unixMilli).Only (·.isSend = false) :=
      honly.mono fun c hc => by rcases hc with rfl | rfl <;> rfl
    refine wp_filter_only hquiet (fun c a v v' G hc => deduplicate_of_not_send hc a v v' G)
      (wp_getDueJobs_faulty (fun e => ?_) fun ids hids => ?_)
    · exact (turnDone_idle (hready id hid) rfl rfl).1
    obtain ⟨hnodup, hdue⟩ := Bool.and_eq_true_iff.mp hids
    have hmarked : ∀ m ∈ ids, ((w.store.due index).lookup m).isSome := by
      intro m hm
      have hd := List.all_eq_true.mp hdue m hm
      rw [Store.isDue] at hd
      split at hd
      · rename_i hat
        exact Option.isSome_iff_exists.mpr ⟨_, hat⟩
      · cases hd
    refine wp_mono (Env.every_mono _) _ (promoting_promoteAll ids none (of_decide_eq_true hnodup)
      fun m hm => hready m (hmarked m hm)) fun a x' hafter => ?_
    by_cases hmem : id ∈ ids
    · exact hafter.own id hmem
    · have hkeys : ids.map (promoteTurns cfg index).key = ids := List.map_id ids
      have hsame := hafter.others id (hkeys.symm ▸ hmem)
      exact (promoteTurns cfg index).done hsame (turnDone_idle (hready id hid) rfl rfl).1

end

/-! ## One due job -/

/-- A scheduled job that is due, and nothing else. -/
def dueRecord : JobRecord := jobToRecord { demoJob with state := .scheduled }
def dueWorld : World :=
  { store := {
      jobs := (∅ : Table JobRecord).insert "j1" dueRecord
      due := Function.update (fun _ => ∅) .scheduled ((∅ : Table Int).insert "j1" 0) } }

theorem dueWorld_named : dueWorld.NamedJobs := by
  intro id r hr
  by_cases hid : id = "j1"
  · subst hid
    rw [dueWorld, AList.lookup_insert] at hr
    cases hr
    rfl
  · rw [dueWorld, AList.lookup_insert_ne hid] at hr
    cases hr

/-- The choices of its promotion up to the removal of the marker and the
clock. -/
def dueRemoved : List Choice := [.tick 0, .page ["j1"], .ok, .ok, .tick 0]

/-- Without failures the job gets its message. -/
theorem promote_keeps_due : ∃ (w' : World) (y : PromoteLog),
    (∃ T, y.turns "j1" = some T) ∧ (w'.sqs.messagesOf "j1").length = 1 ∧
    ∀ id, ((dueWorld.store.due .scheduled).lookup id).isSome →
      (y.turns id = none → Safe demo .scheduled w' id) ∧
      ∀ T, y.turns id = some T → (Safe demo .scheduled w' id ↔ Survives demo id T) := by
  have hrun : ∃ out, script (ghostAct (Rules.fifoAct {}) PromoteLog.note)
      (dueRemoved ++ [.ok, .ok, .ok, .ok, .ok, .ok, .ok]) (promoteScheduled demo) ((dueWorld, {}), {}) =
        some out ∧ (out.2.2.turns "j1").isSome = true ∧
      (out.2.1.1.sqs.messagesOf "j1").length = 1 := ⟨_, rfl, rfl, rfl⟩
  obtain ⟨⟨a, ⟨w', F'⟩, y⟩, hscript, hT, hone⟩ := hrun
  exact ⟨w', y, Option.isSome_iff_exists.mp hT, hone,
    promote_keeps dueWorld_named (ghost_script_runs _ hscript)⟩

/-- When the update of its record fails the job has neither marker nor message. -/
theorem failed_update_strands : ¬ ∀ (cfg : Config) (index : DueIndex) (ρ : Rules) (w w' : World)
    (F F' : Fifo) (a : Option Error) (y : PromoteLog), w.NamedJobs →
    Runs ρ.promoting (promote cfg index) ((w, F), {}) a ((w', F'), y) →
    ∀ id, w.store.isDue index w.clock.unixMilli id = true → Safe cfg index w' id := by
  intro hall
  have hrun : ∃ out, script (ghostAct (Rules.fifoAct { faults := true }) PromoteLog.note)
      (dueRemoved ++ [.ok, .fault "throttled"]) (promoteScheduled demo) ((dueWorld, {}), {}) =
        some out ∧ (out.2.1.1.store.due .scheduled).lookup "j1" = none ∧
      (out.2.1.1.store.jobs.lookup "j1").map (·.state) = some .scheduled := ⟨_, rfl, rfl, rfl⟩
  obtain ⟨⟨a, ⟨w', F'⟩, y⟩, hscript, hdue, hstate⟩ := hrun
  have hsafe := hall demo .scheduled { faults := true } dueWorld w' {} F' a y dueWorld_named
    (ghost_script_runs _ hscript) "j1" (by decide)
  rcases hsafe with h | ⟨r, hr, hs, -⟩
  · rw [hdue] at h
    cases h
  · rw [hr, Option.map_some, hs] at hstate
    cases hstate

end OjsSqs
