import OjsSqs.Atomic.Steps
import OjsSqs.Faults.Notes
import OjsSqs.Lifecycle.Invariant
import OjsSqs.Racing.Endings

/-! # Ack and Nack with failing calls

A worker reports on an active job. The message goes first, the record second,
the marker of a retry last, and a call that fails in between ends the report.
A ghost keeps which calls were carried out and which one failed last: with it
the reports are known after which the job can still be recovered. -/
namespace OjsSqs
open Calls

inductive Report where
  | ack (result : Option String)
  | nack (jobErr : Option JobError) (requeue : Bool)

namespace Report

/-- The call, with the response left out. -/
def prog (cfg : Config) (id : String) : Report → M (Except Error Unit)
  | .ack result => (·.map fun _ => ()) <$> OjsSqs.ack cfg id result
  | .nack jobErr requeue => (·.map fun _ => ()) <$> OjsSqs.nack cfg id jobErr requeue

/-- The terminal state the report may aim at. -/
def aim : Report → Option JobState
  | .ack _ => some .completed
  | .nack _ false => some .discarded
  | .nack _ true => none

end Report

/-- The calls that were carried out, and the last one that failed. -/
structure FailLog where
  made : List Call := []
  failed : Option Call := none

def FailLog.note : Note World Call Answer FailLog := fun c r _ _ g =>
  if callFailed c r then { g with failed := some c } else { g with made := g.made ++ [c] }

/-- The calls of a report, with what is noted of them. -/
def Rules.reporting (ρ : Rules) : Env (World × FailLog) Call Answer := ρ.env.withGhost FailLog.note

namespace Call

def deletesMessage : Call → Bool
  | .sqs (.deleteMessage _ _) => true
  | _ => false

def updatesJob : Call → Bool
  | .dynamo (.updateJobItem _ _ _ _ _) => true
  | _ => false

def marksDue : Call → Bool
  | .dynamo (.putDueItem _ _ _) => true
  | _ => false

end Call

section
variable (cfg : Config) (id : String)

/-- The job is in the terminal state aimed at, or retryable with a marker, or it
has an undeleted message. -/
def Recoverable (o : Report) (w : World) : Prop :=
  (∃ r, w.store.jobs.lookup id = some r ∧ (some r.state = o.aim ∨
    r.state = .retryable ∧ ((w.store.due .retry).lookup id).isSome)) ∨
  w.sqs.messagesOf id ≠ []

/-- The message is the one the handle of the record names. -/
def NamedBy (w : World) (r : JobRecord) (m : Message) : Prop :=
  m.queueURL = w.urlOf cfg r.queue ∧ m.receipt = r.sqsReceiptHandle

/-- A message of the job is left, when the one the record names may have been
deleted. -/
def Left (w : World) (r : JobRecord) (deleted : Bool) : Prop :=
  ∃ m ∈ w.sqs.messagesOf id, deleted = true → ¬ NamedBy cfg w r m

/-- The report has written a state that needs no message, and it is not the
marker of the retry that could not be written. -/
def Concluded (o : Report) (w : World) (made : List Call) (c : Call) : Prop :=
  o.aim.isSome ∧ made.any Call.updatesJob = true ∧
    (c.marksDue = false ∨ ((w.store.due .retry).lookup id).isSome)

end

/-- What of the log the outcome depends on. -/
structure Logged (deleted updated : Bool) (g : FailLog) : Prop where
  deleted : g.made.any Call.deletesMessage = deleted
  updated : g.made.any Call.updatesJob = updated

/-- The calls that neither delete a message nor write the record. -/
def Call.isQuiet (c : Call) : Prop := c.deletesMessage = false ∧ c.updatesJob = false

theorem Logged.made {d u : Bool} {g : FailLog} (h : Logged d u g) {c : Call} {r : Answer c}
    (hr : callFailed c r = false) (w w' : World) :
    Logged (d || c.deletesMessage) (u || c.updatesJob) (FailLog.note c r w w' g) := by
  rw [FailLog.note, hr]
  exact ⟨by simp [h.deleted], by simp [h.updated]⟩

theorem Logged.failed {d u : Bool} {g : FailLog} (h : Logged d u g) {c : Call} {r : Answer c}
    (hr : callFailed c r = true) (w w' : World) :
    Logged d u (FailLog.note c r w w' g) ∧ (FailLog.note c r w w' g).failed = some c := by
  rw [FailLog.note, hr]
  exact ⟨⟨h.deleted, h.updated⟩, rfl⟩

/-- Quiet calls leave the log as it is, or fail. -/
theorem reportNotes (d u : Bool) : Notes FailLog.note Call.isQuiet (Logged d u)
    fun c g => Logged d u g ∧ g.failed = some c where
  keep {c r w w' g} hq hr hg := by
    have h := hg.made hr w w'
    rwa [hq.1, hq.2, Bool.or_false, Bool.or_false] at h
  fail _ hr hg := hg.failed hr _ _

/-! ## Where a report may end -/

section
variable {cfg : Config} {id : String} {o : Report} {ρ : Rules} {w w' : World} {r : JobRecord}
  {d : Bool} {g : FailLog} {c : Call} {e : Error}

/-- What is claimed of a report that returns an error. -/
def Outcome (cfg : Config) (id : String) (o : Report) (w : World) (r : JobRecord)
    (a : Except Error Unit) (x : World × FailLog) : Prop :=
  a.isOk = false → ∃ c, x.2.failed = some c ∧ (Recoverable id o x.1 ↔
    Left cfg id w r (x.2.made.any Call.deletesMessage) ∨ Concluded id o w x.2.made c)

/-- Before the record is written. -/
structure Unwritten (cfg : Config) (id : String) (w : World) (r : JobRecord) (d : Bool)
    (w' : World) : Prop where
  job : w'.store.jobs.lookup id = some r
  marker : (w'.store.due .retry).lookup id = (w.store.due .retry).lookup id
  messages : w'.sqs.messagesOf id ≠ [] ↔ Left cfg id w r d

/-- Once the record is in the state `s`. -/
structure Rewritten (cfg : Config) (id : String) (w : World) (r : JobRecord) (d : Bool)
    (s : JobState) (w' : World) : Prop where
  job : ∃ r', w'.store.jobs.lookup id = some r' ∧ r'.state = s
  marker : (w'.store.due .retry).lookup id = (w.store.due .retry).lookup id
  messages : w'.sqs.messagesOf id ≠ [] ↔ Left cfg id w r d

/-- The job is in a state that needs a message. -/
theorem recoverable_iff_messages {r' : JobRecord} (hr : w.store.jobs.lookup id = some r')
    (ho : some r'.state ≠ o.aim) (hs : r'.state ≠ .retryable) :
    Recoverable id o w ↔ w.sqs.messagesOf id ≠ [] := by
  refine ⟨fun h => h.resolve_left ?_, .inr⟩
  rintro ⟨r'', hr', hst⟩
  cases hr.symm.trans hr'
  rcases hst with h | ⟨h, -⟩
  · exact ho h
  · exact hs h

theorem outcome_unwritten (hactive : r.state = .active) (h : Unwritten cfg id w r d w')
    (hg : Logged d false g) (hf : g.failed = some c) (a : Except Error Unit) :
    Outcome cfg id o w r a (w', g) := by
  refine fun _ => ⟨c, hf, ?_⟩
  have haim : some r.state ≠ o.aim := by
    rw [hactive]
    cases o with
    | ack result => exact fun h => by cases h
    | nack jobErr requeue => cases requeue <;> exact fun h => by cases h
  rw [recoverable_iff_messages h.job haim (by rw [hactive]; decide), hg.deleted, h.messages]
  refine ⟨.inl, fun hl => hl.resolve_right ?_⟩
  rintro ⟨-, hu, -⟩
  cases hg.updated.symm.trans hu

/-- A requeue that has written the record. -/
theorem outcome_requeued (ho : o.aim = none) (h : Rewritten cfg id w r d .available w')
    (hg : Logged d true g) (hf : g.failed = some c) (a : Except Error Unit) :
    Outcome cfg id o w r a (w', g) := by
  obtain ⟨r', hr, hs⟩ := h.job
  refine fun _ => ⟨c, hf, ?_⟩
  rw [recoverable_iff_messages hr (by rw [ho]; nofun) (by rw [hs]; decide), hg.deleted, h.messages]
  refine ⟨.inl, fun hl => hl.resolve_right ?_⟩
  rintro ⟨haim, -⟩
  rw [ho] at haim
  cases haim

/-- A report that has come to a state that needs no message. -/
theorem outcome_concluded (hrec : Recoverable id o w') (hcon : Concluded id o w g.made c)
    (hf : g.failed = some c) (a : Except Error Unit) : Outcome cfg id o w r a (w', g) :=
  fun _ => ⟨c, hf, iff_of_true hrec (.inr hcon)⟩

/-- A retry with its marker. -/
theorem Rewritten.marked (h : Rewritten cfg id w r d .retryable w') (jobErr : Option JobError)
    (ms : Int) : Recoverable id (.nack jobErr false)
      (w'.setStore (w'.store.run (.putDueItem .retry id ms)).2) := by
  obtain ⟨r', hr', hs⟩ := h.job
  refine .inl ⟨r', hr', .inr ⟨hs, ?_⟩⟩
  simp only [World.setStore, Store.run, Store.setDue, Function.update_self,
    AList.lookup_insert, Option.isSome_some]

/-- A retry whose marker could not be written. -/
theorem outcome_unmarked (ho : o.aim = some .discarded)
    (h : Rewritten cfg id w r d .retryable w') (hg : Logged d true g) (hc : c.marksDue = true)
    (hf : g.failed = some c) (a : Except Error Unit) : Outcome cfg id o w r a (w', g) := by
  obtain ⟨r', hr, hs⟩ := h.job
  refine fun _ => ⟨c, hf, ?_⟩
  rw [hg.deleted, ← h.messages, Concluded, ho, hg.updated, hc, Recoverable, hr, h.marker]
  constructor
  · rintro (⟨r'', hr', hst⟩ | hm)
    · cases hr'
      rcases hst with hd | ⟨-, hmark⟩
      · rw [hs, ho] at hd
        cases hd
      · exact .inr ⟨rfl, rfl, .inr hmark⟩
    · exact .inl hm
  · rintro (hm | ⟨-, -, hno | hmark⟩)
    · exact .inr hm
    · cases hno
    · exact .inl ⟨r', rfl, .inr ⟨hs, hmark⟩⟩

end

/-! ## The message -/

section
variable {cfg : Config} {id : String} {ρ : Rules} {w w' : World} {r : JobRecord} {d : Bool}
  {g : FailLog}

/-- Nothing that matters to the job has changed. -/
structure Intact (cfg : Config) (id : String) (w w' : World) : Prop where
  store : w'.store = w.store
  messages : w'.sqs.messagesOf id = w.sqs.messagesOf id
  urls : ∀ queue, w'.urlOf cfg queue = w.urlOf cfg queue

theorem Intact.clock (h : Intact cfg id w w') (t : Time) : Intact cfg id w (w'.setClock t) :=
  ⟨h.store, h.messages, h.urls⟩

theorem Intact.openQueue (h : Intact cfg id w w') (queue : String) :
    Intact cfg id w (w'.openQueue cfg queue) where
  store := (World.openQueue_store cfg w' queue).trans h.store
  messages := (World.openQueue_messagesOf cfg w' queue id).trans h.messages
  urls q := (World.openQueue_urlOf cfg w' queue q).trans (h.urls q)

theorem left_false : w.sqs.messagesOf id ≠ [] ↔ Left cfg id w r false := by
  refine ⟨fun h => ?_, fun ⟨m, hm, _⟩ => List.ne_nil_of_mem hm⟩
  obtain ⟨m, hm⟩ := List.exists_mem_of_ne_nil _ h
  exact ⟨m, hm, nofun⟩

theorem Intact.unwritten (h : Intact cfg id w w') (hr : w.store.jobs.lookup id = some r) :
    Unwritten cfg id w r false w' :=
  ⟨by rw [h.store, hr], by rw [h.store], by rw [h.messages, left_false]⟩

/-- The message the record names has been deleted. -/
theorem Intact.deleted (h : Intact cfg id w w') (hr : w.store.jobs.lookup id = some r)
    {handle : Receipt} (hh : r.sqsReceiptHandle = some handle) :
    Unwritten cfg id w r true
      (w'.setSqs (w'.sqs.delete (w.urlOf cfg r.queue) handle)) := by
  refine ⟨by rw [World.setSqs, h.store, hr], by rw [World.setSqs, h.store], ?_⟩
  rw [World.setSqs, SqsState.delete_eq, SqsState.messagesOf_filter, h.messages]
  constructor
  · intro hne
    obtain ⟨m, hm⟩ := List.exists_mem_of_ne_nil _ hne
    obtain ⟨hm, hnot⟩ := List.mem_filter.mp hm
    exact ⟨m, hm, fun _ => by rw [NamedBy, hh]; exact of_decide_eq_true hnot⟩
  · rintro ⟨m, hm, hnot⟩
    have hnamed := hnot rfl
    rw [NamedBy, hh] at hnamed
    exact List.ne_nil_of_mem (List.mem_filter.mpr ⟨hm, decide_eq_true hnamed⟩)

/-- It has been made visible. -/
theorem Intact.shown (h : Intact cfg id w w') (hr : w.store.jobs.lookup id = some r) (url : String)
    (handle : Receipt) (vis : Int) :
    Unwritten cfg id w r false (w'.setSqs (w'.sqs.changeVisibility url handle vis)) := by
  refine ⟨by rw [World.setSqs, h.store, hr], by rw [World.setSqs, h.store], ?_⟩
  rw [← left_false, World.setSqs, SqsState.changeVisibility_eq,
    SqsState.messagesOf_map (SqsState.same_showMessage url handle vis), h.messages]
  exact not_congr List.map_eq_nil_iff

end

section
variable {cfg : Config} {id : String} {ρ : Rules} {w w' : World} {r : JobRecord} {g : FailLog}
  (hr : w.store.jobs.lookup id = some r) (hi : Intact cfg id w w') (hg : Logged false false g)
include hr hi hg

omit hr in
theorem reporting_openQueue {queue : String} {Q : Except Error String → World × FailLog → Prop}
    (hfail : ∀ e c g', Logged false false g' → g'.failed = some c → Q (.error e) (w', g'))
    (hok : ∀ g', Logged false false g' →
      Q (.ok (w.urlOf cfg queue)) (w'.openQueue cfg queue, g')) :
    wp ρ.reporting.every (getOrCreateQueueURL cfg queue) Q (w', g) := by
  refine (reportNotes false false).getOrCreateQueueURL hg cfg (fun c _ _ => ⟨rfl, rfl⟩) ⟨rfl, rfl⟩
    (fun e g' hj => hfail e _ g' hj.1 hj.2) fun g' hg' => ?_
  rw [hi.urls queue]
  exact hok g' hg'

/-- The deletion of the message the record names. -/
theorem reporting_delete {handle : Receipt} (hh : r.sqsReceiptHandle = some handle)
    {Q : Except AwsError Unit → World × FailLog → Prop}
    (hfail : ∀ e c g', Logged false false g' → g'.failed = some c → Q (.error e) (w', g'))
    (hok : ∀ w'' g', Unwritten cfg id w r true w'' → Logged true false g' → Q (.ok ()) (w'', g')) :
    wp ρ.reporting.every (sqs (.deleteMessage (w.urlOf cfg r.queue) handle)) Q (w', g) := by
  refine wp_ghost (wp_sqs_faulty rfl (fun _ _ hd => by cases hd) (fun msg => ?_) ?_)
  · obtain ⟨hg', hf⟩ := hg.failed (c := .sqs (.deleteMessage (w.urlOf cfg r.queue) handle))
      (r := .error (.other msg)) rfl w' w'
    exact hfail _ _ _ hg' hf
  · exact hok _ _ (hi.deleted hr hh)
      (hg.made (c := .sqs (.deleteMessage (w.urlOf cfg r.queue) handle)) (r := .ok ()) rfl w' _)

theorem reporting_deleteMessageOf {step did : String}
    {Q : Except Error Unit → World × FailLog → Prop}
    (hfail : ∀ e c w'' g', Unwritten cfg id w r false w'' → Logged false false g' →
      g'.failed = some c → Q (.error e) (w'', g'))
    (hok : ∀ d w'' g', Unwritten cfg id w r d w'' → Logged d false g' → Q (.ok ()) (w'', g')) :
    wp ρ.reporting.every (deleteMessageOf cfg r step did) Q (w', g) := by
  rw [deleteMessageOf]
  cases hh : r.sqsReceiptHandle with
  | none => exact hok false _ _ (hi.unwritten hr) hg
  | some handle =>
    simp only
    rw [wp_bind]
    refine reporting_openQueue hi hg (fun e c g' hg' hf => ?_) fun g' hg' => ?_
    · exact hfail _ c _ g' (hi.unwritten hr) hg' hf
    · simp only
      rw [wp_bind]
      have hopen := hi.openQueue r.queue
      refine reporting_delete hr hopen hg' hh (fun e c g' hg' hf => ?_) fun w'' g' hw hg' => ?_
      · exact hfail _ c _ g' (hopen.unwritten hr) hg' hf
      · exact hok true w'' g' hw hg'

/-- Ack goes on whether the deletion fails or not. -/
theorem reporting_dropMessage {Q : Unit → World × FailLog → Prop}
    (hQ : ∀ d w'' g', Unwritten cfg id w r d w'' → Logged d false g' → Q () (w'', g')) :
    wp ρ.reporting.every (dropMessage cfg r) Q (w', g) := by
  rw [dropMessage]
  cases hh : r.sqsReceiptHandle with
  | none => exact hQ false _ _ (hi.unwritten hr) hg
  | some handle =>
    simp only
    rw [wp_bind]
    refine reporting_openQueue hi hg (fun e c g' hg' _ => ?_) fun g' hg' => ?_
    · exact hQ false _ g' (hi.unwritten hr) hg'
    · simp only
      rw [wp_bind]
      have hopen := hi.openQueue r.queue
      refine reporting_delete hr hopen hg' hh (fun e c g' hg' _ => ?_) fun w'' g' hw hg' => ?_
      · exact hQ false _ g' (hopen.unwritten hr) hg'
      · exact hQ true w'' g' hw hg'

theorem reporting_releaseMessage {Q : Except Error Unit → World × FailLog → Prop}
    (hfail : ∀ e c w'' g', Unwritten cfg id w r false w'' → Logged false false g' →
      g'.failed = some c → Q (.error e) (w'', g'))
    (hok : ∀ w'' g', Unwritten cfg id w r false w'' → Logged false false g' →
      Q (.ok ()) (w'', g')) :
    wp ρ.reporting.every (releaseMessage cfg r) Q (w', g) := by
  rw [releaseMessage]
  cases hh : r.sqsReceiptHandle with
  | none => exact hok _ _ (hi.unwritten hr) hg
  | some handle =>
    simp only
    rw [wp_bind]
    refine reporting_openQueue hi hg (fun e c g' hg' hf => ?_) fun g' hg' => ?_
    · exact hfail _ c _ g' (hi.unwritten hr) hg' hf
    · simp only
      rw [wp_bind]
      have hopen := hi.openQueue r.queue
      refine (reportNotes false false).sqs hg' rfl (fun _ _ hd => by cases hd) ⟨rfl, rfl⟩
        (fun msg g' hj => ?_) fun g' hg' => ?_
      · exact hfail _ _ _ g' (hopen.unwritten hr) hj.1 hj.2
      · exact hok _ g' (hopen.shown hr _ _ 0) hg'

end

/-! ## The record -/

section
variable {cfg : Config} {id : String} {o : Report} {ρ : Rules} {w w' : World} {r : JobRecord}
  {d u : Bool} {g : FailLog}

theorem reporting_updateJobState (hu : Unwritten cfg id w r d w') (hg : Logged d false g)
    {s : JobState} {us : List JobUpdate} {Q : Except Error Unit → World × FailLog → Prop}
    (hfail : ∀ e c g', Logged d false g' → g'.failed = some c → Q (.error e) (w', g'))
    (hok : ∀ w'' g', Rewritten cfg id w r d s w'' → Logged d true g' → Q (.ok ()) (w'', g')) :
    wp ρ.reporting.every (updateJobState id s us) Q (w', g) := by
  rw [updateJobState, wp_bind]
  refine (reportNotes d false).getJob hg ⟨rfl, rfl⟩ (fun e g' hj => hfail _ _ g' hj.1 hj.2)
    (fun e g' hnone => by cases hu.job.symm.trans hnone) fun r' g' hsome hg' => ?_
  simp only
  rw [request, wp_bind]
  refine wp_ghost (wp_dynamo_faulty rfl (fun msg => ?_) ?_)
  · obtain ⟨hg'', hf⟩ := hg'.failed
      (c := .dynamo (.updateJobItem id s us (gsi1skOf s r'.createdAt) (gsi2pkOf s)))
      (r := .error (.other msg)) rfl w' w'
    exact hfail _ _ _ hg'' hf
  · refine hok _ _ ⟨⟨_, AList.lookup_insert _, rfl⟩, hu.marker, hu.messages⟩ ?_
    have hlog : Logged (d || false) true _ := hg'.made
      (c := .dynamo (.updateJobItem id s us (gsi1skOf s r'.createdAt) (gsi2pkOf s)))
      (r := .ok ()) rfl w' w'
    rwa [Bool.or_false] at hlog

/-- `Info` of a stored job fails only when its request does. -/
theorem reporting_info (hr : (w'.store.jobs.lookup id).isSome)
    (hg : Logged d u g) {Q : Except Error Job → World × FailLog → Prop}
    (hfail : ∀ e c g', c.marksDue = false → Logged d u g' → g'.failed = some c →
      Q (.error e) (w', g')) (hok : ∀ job g', Q (.ok job) (w', g')) :
    wp ρ.reporting.every (info id) Q (w', g) := by
  rw [info, wp_bind]
  exact (reportNotes d u).getJob hg ⟨rfl, rfl⟩ (fun e g' hj => hfail _ _ g' rfl hj.1 hj.2)
    (fun e g' hnone => by rw [hnone] at hr; cases hr) fun r g' _ _ => hok _ g'

/-! ## The reports -/

variable (hr : w.store.jobs.lookup id = some r) (hactive : r.state = .active)
include hr hactive

theorem outcome_ack (result : Option String) :
    wp ρ.reporting.every ((Report.ack result).prog cfg id) (Outcome cfg id (.ack result) w r)
      (w, {}) := by
  have hg : Logged false false {} := ⟨rfl, rfl⟩
  have hi : Intact cfg id w w := ⟨rfl, rfl, fun _ => rfl⟩
  rw [Report.prog, wp_map, ack, wp_bind]
  refine (reportNotes false false).getJob hg ⟨rfl, rfl⟩ (fun e g' hj => ?_)
    (fun e g' hnone => by cases hr.symm.trans hnone) fun r' g' hsome hg' => ?_
  · exact outcome_unwritten hactive (hi.unwritten hr) hj.1 hj.2 _
  · obtain rfl := Option.some.inj (hr.symm.trans hsome)
    simp only
    rw [wp_ite, if_neg (not_not_intro hactive), wp_bind, nowFormatted, wp_bind]
    refine (reportNotes false false).timeNow hg' ⟨rfl, rfl⟩ fun t g' _ hg' => ?_
    rw [wp_pure, wp_bind]
    refine reporting_dropMessage hr (hi.clock t) hg' fun d w'' g' hu hg' => ?_
    rw [wp_bind]
    refine reporting_updateJobState hu hg' (fun e c g' hg' hf => ?_) fun w'' g' _ _ => ?_
    · exact outcome_unwritten hactive hu hg' hf _
    · -- the report cannot fail any more
      simp only
      rw [wp_bind]
      refine wp_always _ _ (fun _ x => ?_) _
      rw [wp_bind]
      refine wp_always _ _ (fun _ x => ?_) _
      rw [wp_bind]
      exact wp_always _ _ (fun _ x h => by cases h) _

theorem outcome_nackRequeue {jobErr : Option JobError} {now : Time} (hi : Intact cfg id w w')
    (hg : Logged false false g) :
    wp ρ.reporting.every (nackRequeue cfg now r id)
      (fun a => Outcome cfg id (.nack jobErr true) w r (a.map fun _ => ())) (w', g) := by
  rw [nackRequeue, wp_bind]
  refine reporting_releaseMessage hr hi hg (fun e c w'' g' hu hg' hf => ?_) fun w'' g' hu hg' => ?_
  · exact outcome_unwritten hactive hu hg' hf _
  · simp only
    rw [wp_bind]
    refine reporting_updateJobState hu hg' (fun e c g' hg' hf => ?_) fun w'' g' hw hg' => ?_
    · exact outcome_unwritten hactive hu hg' hf _
    · obtain ⟨r', hr', -⟩ := hw.job
      simp only
      rw [wp_bind]
      refine reporting_info (by rw [hr']; rfl) hg' (fun e c g' _ hg' hf => ?_) fun job g' => ?_
      · exact outcome_requeued rfl hw hg' hf _
      · exact fun h => by cases h

theorem outcome_nackRetry {jobErr : Option JobError} {now : Time} (hi : Intact cfg id w w')
    (hg : Logged false false g) :
    wp ρ.reporting.every (nackRetry cfg now r id jobErr)
      (fun a => Outcome cfg id (.nack jobErr false) w r (a.map fun _ => ())) (w', g) := by
  rw [nackRetry, wp_bind]
  refine reporting_deleteMessageOf hr hi hg (fun e c w'' g' hu hg' hf => ?_) fun d w'' g' hu hg' => ?_
  · exact outcome_unwritten hactive hu hg' hf _
  · simp only
    rw [wp_bind]
    refine reporting_updateJobState hu hg' (fun e c g' hg' hf => ?_) fun w'' g' hw hg' => ?_
    · exact outcome_unwritten hactive hu hg' hf _
    · obtain ⟨r', hr', hs⟩ := hw.job
      simp only
      rw [wp_bind, addRetryJob, addDueJob]
      refine (reportNotes d true).request hg' rfl ⟨rfl, rfl⟩ rfl (fun e g' hj => ?_) fun g' hg' => ?_
      · exact outcome_unmarked rfl hw hj.1 rfl hj.2 _
      · -- the marker is there
        simp only
        rw [wp_bind]
        have hstored : ∀ ms, ((w''.setStore (w''.store.run (.putDueItem .retry id ms)).2).store.jobs.lookup
            id).isSome := fun ms => by rw [World.setStore, Store.run, Store.setDue, hr']; rfl
        refine reporting_info (hstored _) hg' (fun e c g' hc hg' hf => ?_) fun job g' => ?_
        · exact outcome_concluded (hw.marked _ _) ⟨rfl, hg'.updated, .inl hc⟩ hf _
        · exact fun h => by cases h

omit hr hactive in
/-- A call after the write leaves a stored job alone whose identifier is not
the new one, and makes no identifier that is stored already. -/
theorem Written.spares {a : Written} {c : Call} {ans : Answer c} (hc : a.allows c)
    (hmade : a.made ≠ some id) (hs : (w.store.jobs.lookup id).isSome) (he : ρ.env c w ans w') :
    w'.store.jobs.lookup id = w.store.jobs.lookup id ∧ (a.next c ans).made ≠ some id := by
  constructor
  · refine Rules.env_job (fun hw => ?_) he
    cases c with
    | dynamo d => cases d <;> first | exact hmade (hc.trans hw) | exact hc.elim | cases hw
    | sqs c => cases hw
    | proc c => cases hw
  · cases c with
    | dynamo d => cases d <;> exact hmade
    | sqs c => exact hmade
    | proc c =>
      cases c with
      | newUUIDv7 =>
        intro hn
        obtain rfl : ans = id := Option.some.inj hn
        rw [Rules.env_newUUIDv7 he] at hs
        cases hs
      | _ => exact hmade

omit hr hactive in
/-- What is carried out stays noted. -/
theorem FailLog.note_updates {c : Call} {ans : Answer c} (hu : g.made.any Call.updatesJob = true)
    (w w' : World) : (FailLog.note c ans w w' g).made.any Call.updatesJob = true := by
  rw [FailLog.note]
  split
  · exact hu
  · simp [hu]

omit hr hactive in
/-- What follows a discarded job leaves its record alone, and the log of its
update. -/
theorem reporting_advanceWorkflowOf {r' : JobRecord} {result : Option String}
    (hr : w'.store.jobs.lookup id = some r') (hu : g.made.any Call.updatesJob = true)
    {Q : Unit → World × FailLog → Prop}
    (hQ : ∀ w'' g', w''.store.jobs.lookup id = some r' → g'.made.any Call.updatesJob = true →
      Q () (w'', g')) :
    wp ρ.reporting.every (advanceWorkflowOf cfg id .discarded result) Q (w', g) := by
  let I : Closing → World × FailLog → Prop := fun s x => ∃ a, s = .wrote a ∧ a.made ≠ some id ∧
    x.1.store.jobs.lookup id = some r' ∧ x.2.made.any Call.updatesJob = true
  have hconf : wp (closing id (.nack none)).effect (advanceWorkflowOf cfg id .discarded result)
      (fun _ _ => True) (.wrote { state := .discarded }) :=
    closing_advanceWorkflowOf cfg (by decide) rfl fun _ _ => trivial
  have hstep : ∀ s x c ans x', (closing id (.nack none)).allow s c → I s x →
      ρ.reporting c x ans x' → I ((closing id (.nack none)).next s c ans) x' := by
    rintro s x c ans x' ha ⟨a, rfl, hmade, hjob, hlog⟩ ⟨he, hnote⟩
    obtain ⟨hsame, hmade⟩ := Written.spares ha hmade (by rw [hjob]; rfl) he
    refine ⟨_, rfl, hmade, hsame.trans hjob, ?_⟩
    rw [hnote]
    exact FailLog.note_updates hlog _ _
  have hstart : I (.wrote { state := .discarded }) (w', g) := ⟨_, rfl, nofun, hr, hu⟩
  refine wp_mono (Env.every_mono _) _ (Monitor.wp_invariant I hstep hconf hstart) ?_
  rintro _ x ⟨_, ⟨_, -, -, hr, hu⟩, -⟩
  exact hQ x.1 x.2 hr hu

theorem outcome_nackDiscard {jobErr : Option JobError} {now : Time} (hi : Intact cfg id w w')
    (hg : Logged false false g) :
    wp ρ.reporting.every (nackDiscard cfg now r id jobErr)
      (fun a => Outcome cfg id (.nack jobErr false) w r (a.map fun _ => ())) (w', g) := by
  rw [nackDiscard, wp_bind]
  refine reporting_deleteMessageOf hr hi hg (fun e c w'' g' hu hg' hf => ?_) fun d w'' g' hu hg' => ?_
  · exact outcome_unwritten hactive hu hg' hf _
  · simp only
    rw [wp_bind]
    refine reporting_updateJobState hu hg' (fun e c g' hg' hf => ?_) fun w'' g' hw hg' => ?_
    · exact outcome_unwritten hactive hu hg' hf _
    · obtain ⟨r', hr', hs⟩ := hw.job
      have hrec : ∀ w'', w''.store.jobs.lookup id = some r' →
          Recoverable id (.nack jobErr false) w'' := fun _ h => .inl ⟨r', h, .inl (congrArg some hs)⟩
      simp only
      rw [wp_bind]
      have hrest : ∀ k : Except Error Job → M (Except Error NackResponse),
          (∀ e, ∃ e', k (.error e) = Pure.pure (.error e')) →
          (∀ job, ∃ answer, k (.ok job) = Pure.pure (.ok answer)) →
          ∀ w'' g', w''.store.jobs.lookup id = some r' → Logged d true g' →
          wp ρ.reporting.every (advanceWorkflowOf cfg id .discarded none >>= fun _ => info id >>= k)
            (fun a => Outcome cfg id (.nack jobErr false) w r (a.map fun _ => ())) (w'', g') := by
        intro k herror hok w'' g' hr' hg'
        rw [wp_bind]
        refine reporting_advanceWorkflowOf hr' hg'.updated fun w'' g' hr' hu => ?_
        rw [wp_bind]
        refine reporting_info (by rw [hr']; rfl) ⟨rfl, hu⟩ (fun e c g' hc hg' hf => ?_) fun job g' => ?_
        · obtain ⟨e', he'⟩ := herror e
          rw [he']
          exact outcome_concluded (hrec _ hr') ⟨rfl, hg'.updated, .inl hc⟩ hf _
        · obtain ⟨answer, ha⟩ := hok job
          rw [ha]
          exact fun h => by cases h
      rw [markDeadLetter, wp_ite]
      split
      · refine (reportNotes d true).request hg' rfl ⟨rfl, rfl⟩ rfl (fun e g' hj => ?_)
          fun g' hg' => hrest _ (fun _ => ⟨_, rfl⟩) (fun _ => ⟨_, rfl⟩) _ g' hr' hg'
        exact outcome_concluded (hrec _ hr') ⟨rfl, hj.1.updated, .inl rfl⟩ hj.2 _
      · exact hrest _ (fun _ => ⟨_, rfl⟩) (fun _ => ⟨_, rfl⟩) _ g' hr' hg'

theorem outcome_nack (jobErr : Option JobError) (requeue : Bool) :
    wp ρ.reporting.every ((Report.nack jobErr requeue).prog cfg id)
      (Outcome cfg id (.nack jobErr requeue) w r) (w, {}) := by
  have hg : Logged false false {} := ⟨rfl, rfl⟩
  have hi : Intact cfg id w w := ⟨rfl, rfl, fun _ => rfl⟩
  rw [Report.prog, wp_map, nack, wp_bind]
  refine (reportNotes false false).getJob hg ⟨rfl, rfl⟩ (fun e g' hj => ?_)
    (fun e g' hnone => by cases hr.symm.trans hnone) fun r' g' hsome hg' => ?_
  · exact outcome_unwritten hactive (hi.unwritten hr) hj.1 hj.2 _
  · obtain rfl := Option.some.inj (hr.symm.trans hsome)
    simp only
    rw [wp_ite, if_neg (not_not_intro hactive), wp_bind]
    refine (reportNotes false false).timeNow hg' ⟨rfl, rfl⟩ fun t g' _ hg' => ?_
    have hi := hi.clock t
    cases requeue with
    | true => exact outcome_nackRequeue hr hactive hi hg'
    | false =>
      simp only [Bool.false_eq_true, if_false]
      rw [wp_ite]
      split
      · exact outcome_nackDiscard hr hactive hi hg'
      · exact outcome_nackRetry hr hactive hi hg'

end

/-! ## Every failure -/

/-- **Where a failing report leaves the job.** Whatever calls fail, a report
that returns an error has had a failing call, and the job can be recovered
exactly when a message of it is left, or when the report had written a state
that needs none. -/
theorem report_recoverable (cfg : Config) (ρ : Rules) (o : Report) {id : String} {w : World}
    {r : JobRecord} (hr : w.store.jobs.lookup id = some r) (hactive : r.state = .active)
    {e : Error} {w' : World} {y : FailLog}
    (h : Runs ρ.reporting (o.prog cfg id) (w, {}) (.error e) (w', y)) :
    ∃ c, y.failed = some c ∧ (Recoverable id o w' ↔
      Left cfg id w r (y.made.any Call.deletesMessage) ∨ Concluded id o w y.made c) := by
  have hout : Outcome cfg id o w r (.error e) (w', y) := by
    cases o with
    | ack result => exact wp_runs (outcome_ack hr hactive result) h
    | nack jobErr requeue => exact wp_runs (outcome_nack hr hactive jobErr requeue) h
  exact hout rfl

/-- An active job, and its one message, which a worker has received. -/
def workedRecord : JobRecord :=
  { jobToRecord { demoJob with state := .active } with sqsReceiptHandle := some ⟨0, 1⟩ }
def workedWorld : World where
  store := { jobs := (∅ : Table JobRecord).insert "j1" workedRecord }
  sqs := { messages := [⟨0, "ojs-default", some demoJob, none, none, false, 1, some ⟨0, 1⟩⟩]
           nextMessage := 1 }
  queueURLs := (∅ : Table String).insert "default" "ojs-default"

/-- A requeue whose update is throttled leaves the message. -/
theorem report_recoverable_requeue : ∃ (e : Error) (w' : World) (y : FailLog),
    Runs (Rules.reporting { faults := true }) ((Report.nack none true).prog demo "j1")
      (workedWorld, {}) (.error e) (w', y) ∧ Recoverable "j1" (.nack none true) w' := by
  have hrun : ∃ e x, script (ghostAct (Rules.act { faults := true }) FailLog.note)
      [.ok, .tick 0, .ok, .ok, .ok, .fault "throttled"] ((Report.nack none true).prog demo "j1")
      (workedWorld, {}) = some (.error e, x) ∧ x.2.made.any Call.deletesMessage = false :=
    ⟨_, _, rfl, rfl⟩
  obtain ⟨e, ⟨w', y⟩, hscript, hkept⟩ := hrun
  have hrun := ghost_script_runs _ hscript
  obtain ⟨c, -, hiff⟩ := @report_recoverable demo { faults := true } (.nack none true) "j1"
    workedWorld workedRecord rfl rfl e w' y hrun
  refine ⟨e, w', y, hrun, hiff.mpr (.inl ?_)⟩
  rw [hkept]
  exact left_false.mp (by decide)

/-- An Ack whose update is throttled has deleted the message before. -/
theorem failed_ack_strands : ¬ ∀ (cfg : Config) (ρ : Rules) (o : Report) (id : String)
    (w : World) (r : JobRecord), w.store.jobs.lookup id = some r → r.state = .active →
    ∀ (e : Error) (w' : World), Runs ρ.env (o.prog cfg id) w (.error e) w' →
      Recoverable id o w' := by
  intro hall
  have hrun : ∃ e w', script (Rules.act { faults := true })
      [.ok, .tick 0, .ok, .ok, .ok, .fault "throttled"] ((Report.ack none).prog demo "j1")
      workedWorld = some (.error e, w') ∧ w'.sqs.messagesOf "j1" = [] ∧
      (w'.store.jobs.lookup "j1").map (·.state) = some .active := ⟨_, _, rfl, by decide, by decide⟩
  obtain ⟨e, w', hscript, hgone, hstate⟩ := hrun
  have hrec := hall demo { faults := true } (.ack none) "j1" workedWorld workedRecord rfl rfl e w'
    (script_runs _ hscript)
  rcases hrec with ⟨r, hr, hs⟩ | hm
  · rw [hr, Option.map_some] at hstate
    obtain hactive := Option.some.inj hstate
    rcases hs with h | ⟨h, -⟩
    · rw [hactive] at h
      cases h
    · rw [hactive] at h
      cases h
  · exact hm hgone

end OjsSqs
