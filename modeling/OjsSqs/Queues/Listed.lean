import OjsSqs.Fetching.Isolation
import OjsSqs.Listing.Complete
import OjsSqs.Queues.Kept
import Mathlib.Data.String.Basic

/-! # Queues after pushes, pauses and acks

The item of a queue is made by the first call that writes it. A Push registers
it with its name, a pause or a resume makes one without a name, and what made it
decides whether it is listed. -/
namespace OjsSqs
open Calls

/-! ## What the calls so far say about a queue -/

/-- The queue a call names. -/
def SystemLabel.names : SystemLabel → Option String
  | .op (.job (.push job)) _ => some job.queue
  | .op (.pauseQueue name) _ | .op (.resumeQueue name) _ => some name
  | _ => none

def namedQueues (ls : List SystemLabel) : List String := ls.filterMap SystemLabel.names

/-- A pause or a resume of the queue. -/
def SystemLabel.pauses (queue : String) : SystemLabel → Option Bool
  | .op (.pauseQueue name) _ => if name = queue then some true else none
  | .op (.resumeQueue name) _ => if name = queue then some false else none
  | _ => none

/-- The last pause or resume was a pause. -/
def pausedLast (queue : String) (ls : List SystemLabel) : Bool :=
  (ls.filterMap (SystemLabel.pauses queue)).getLast?.getD false

/-- An Ack of a job of the queue has succeeded. -/
def SystemLabel.acks (queue : String) : SystemLabel → Bool
  | .op (.job (.ack _ _)) (.ok response) => response.job.map (·.queue) = some queue
  | _ => false

def ackCount (queue : String) (ls : List SystemLabel) : Nat := ls.countP (SystemLabel.acks queue)

/-- The item the queue should have. -/
def expectedItem (queue : String) (ls : List SystemLabel) : Option QueueItem :=
  if queue ∈ namedQueues ls then
    some { name := some queue, paused := pausedLast queue ls, completed := ackCount queue ls }
  else none

section
variable {queue : String} {ls : List SystemLabel} {l : SystemLabel}

theorem namedQueues_append : namedQueues (ls ++ [l]) = namedQueues ls ++ l.names.toList := by
  rw [namedQueues, List.filterMap_append, namedQueues, List.filterMap_cons, List.filterMap_nil]
  cases l.names <;> rfl

theorem pausedLast_append : pausedLast queue (ls ++ [l]) =
    (l.pauses queue).getD (pausedLast queue ls) := by
  rw [pausedLast, List.filterMap_append, pausedLast, List.filterMap_cons, List.filterMap_nil]
  cases l.pauses queue with
  | none => rw [List.append_nil, Option.getD_none]
  | some b => rw [List.getLast?_append, List.getLast?_singleton, Option.some_or]; rfl

theorem ackCount_append : ackCount queue (ls ++ [l]) =
    ackCount queue ls + if l.acks queue then 1 else 0 := by
  rw [ackCount, List.countP_append, List.countP_singleton]
  rfl

/-- A queue that was never named was never paused. -/
theorem pausedLast_unnamed (h : queue ∉ namedQueues ls) : pausedLast queue ls = false := by
  have hnone : ls.filterMap (SystemLabel.pauses queue) = [] := by
    refine List.filterMap_eq_nil_iff.mpr fun l hl => ?_
    have hl : l.names ≠ some queue := fun hn => h (List.mem_filterMap.mpr ⟨l, hl, hn⟩)
    cases l with
    | env l => rfl
    | op o a =>
      cases o with
      | pauseQueue name => exact if_neg fun hn => hl (congrArg some hn)
      | resumeQueue name => exact if_neg fun hn => hl (congrArg some hn)
      | _ => rfl
  rw [pausedLast, hnone]
  rfl

end

/-! ## The runs -/

/-- The queue's item carries its name. -/
def Registered (w : World) (queue : String) : Prop :=
  ∃ item, w.store.queues.lookup queue = some item ∧ item.name = some queue

/-- A step of calls that may use an identifier again, as in `SystemStep`
otherwise. -/
inductive QueueStep (cfg : Config) (lib : CronLib) (ρ : Rules) :
    World → SystemLabel → World → Prop
  | op {w w' : World} (o : SystemOp) (a : o.Result) : o.done a = true →
      Runs ρ.env (o.prog cfg lib) w a w' → QueueStep cfg lib ρ w (.op o a) w'
  | env {w w' : World} (l : Label) : l.isOp = false → Step cfg ρ w l w' →
      QueueStep cfg lib ρ w (.env l) w'

/-- Successful Push, PauseQueue, ResumeQueue and Ack calls, in any order, and
between them Fetches and the steps of the environment. -/
def SystemLabel.isQueueCall : SystemLabel → Bool
  | .op (.job (.push _)) (.ok _) | .op (.pauseQueue _) (.ok _) | .op (.resumeQueue _) (.ok _)
  | .op (.job (.ack _ _)) (.ok _) | .op (.job (.fetch _ _ _ _ _)) _ | .env _ => true
  | _ => false

/-- A pause or a resume comes after the queue was registered, and a Push with a
unique policy too, unless nobody holds its key. -/
def NamesRegistered (cfg : Config) (w : World) : SystemLabel → Prop
  | .op (.job (.push job)) _ => Registered w job.queue ∨ ∀ policy, job.unique = some policy →
      w.store.uniqueKeys.lookup (computeFingerprint cfg policy job) = none
  | .op (.pauseQueue name) _ | .op (.resumeQueue name) _ => Registered w name
  | _ => True

def QueueRun (cfg : Config) (w : World) (l : SystemLabel) : Prop :=
  l.isQueueCall = true ∧ NamesRegistered cfg w l

/-- The table has the queue items of the store. -/
def HoldsQueues (table : List TableItem) (s : Store) : Prop :=
  (table.filterMap TableItem.queue?).Perm (s.queues.entries.map (·.2))

/-- Exactly the queues that were named are listed, each once, with the status of
the last pause or resume, and their Acks are counted. -/
def ShowsNamed (split : Split) (table : List TableItem) (ls : List SystemLabel) (w : World) : Prop :=
  w.store.listQueues split table = ((namedQueues ls).dedup.insertionSort (· ≤ ·)).map
      (fun queue => ⟨queue, statusOf (pausedLast queue ls)⟩) ∧
    ∀ queue s s', (w.store.queueStats s s' table queue).completed = ackCount queue ls

/-- The tables are what the calls so far say. -/
structure Books (ls : List SystemLabel) (w : World) : Prop where
  workflows : w.store.workflows = ∅
  items : ∀ queue, w.store.queues.lookup queue = expectedItem queue ls
  jobs : ∀ id r, w.store.jobs.lookup id = some r → r.queue ∈ namedQueues ls
  unnamed : ∀ queue, queue ∉ namedQueues ls → ackCount queue ls = 0

/-! ## Steps that say nothing new -/

section
variable {queue : String} {ls : List SystemLabel} {l : SystemLabel} {w w' : World}

/-- What the label says of a queue. -/
theorem expectedItem_append : expectedItem queue (ls ++ [l]) =
    if queue ∈ namedQueues ls ∨ l.names = some queue then
      some { name := some queue, paused := (l.pauses queue).getD (pausedLast queue ls)
             completed := ackCount queue ls + if l.acks queue then 1 else 0 }
    else none := by
  have hmem : queue ∈ namedQueues (ls ++ [l]) ↔ queue ∈ namedQueues ls ∨ l.names = some queue := by
    rw [namedQueues_append, List.mem_append, Option.mem_toList]
  rw [expectedItem, pausedLast_append, ackCount_append]
  exact if_congr hmem rfl rfl

/-- The label is about no queue. -/
def SystemLabel.isIdle (l : SystemLabel) : Prop :=
  l.names = none ∧ ∀ queue, l.pauses queue = none ∧ l.acks queue = false

theorem Books.idle (h : Books ls w) (hl : l.isIdle) : Books (ls ++ [l]) w := by
  have hnames : namedQueues (ls ++ [l]) = namedQueues ls := by
    rw [namedQueues_append, hl.1]
    exact List.append_nil _
  have hcount : ∀ queue, ackCount queue (ls ++ [l]) = ackCount queue ls := fun queue => by
    rw [ackCount_append, (hl.2 queue).2]
    rfl
  refine ⟨h.workflows, fun queue => ?_, ?_, ?_⟩
  · rw [h.items, expectedItem, expectedItem, hnames, hcount, pausedLast_append, (hl.2 queue).1]
    rfl
  · rw [hnames]
    exact h.jobs
  · intro queue hq
    rw [hcount]
    exact h.unnamed queue (hnames ▸ hq)

/-- Other tables do not matter. -/
theorem Books.of_tables (h : Books ls w) (hw : w'.store.workflows = w.store.workflows)
    (hq : w'.store.queues = w.store.queues) (hj : w'.store.jobs = w.store.jobs) : Books ls w' := by
  refine ⟨hw.trans h.workflows, ?_, ?_, h.unnamed⟩
  · rw [hq]
    exact h.items
  · rw [hj]
    exact h.jobs

theorem Books.registered (h : Books ls w) : Registered w queue ↔ queue ∈ namedQueues ls := by
  rw [Registered, h.items, expectedItem]
  split
  · rename_i hin
    exact iff_of_true ⟨_, rfl, rfl⟩ hin
  · rename_i hout
    exact iff_of_false (fun ⟨_, he, _⟩ => by cases he) hout

variable {cfg : Config} {ρ : Rules}

theorem books_kept : KeptByMoves ρ (Books ls) where
  aside c w a w' hc hof h he := by
    refine h.of_tables (Rules.env_ofJobs hof he) (Rules.env_frame (fun s => s.queues) ?_ he)
      (Rules.env_frame (fun s => s.jobs) ?_ he)
    all_goals
      rintro d rfl
      cases d <;> first | (cases hc; done) | rfl | (simp only [Store.run]; split <;> rfl)
  moved w id r s us h hr := by
    refine ⟨h.workflows, h.items, fun i r' hr' => ?_, h.unnamed⟩
    by_cases hi : i = id
    · rw [hi, World.setJob_lookup] at hr'
      cases hr'
      rw [JobRecord.moved_queue]
      exact h.jobs id r hr
    · rw [World.setJob_lookup_ne _ hi] at hr'
      exact h.jobs i r' hr'

/-! ## The calls -/

/-- A label that counts no Ack: what it names is there, and maybe paused. -/
theorem Books.named (h : Books ls w) {name : String} (hl : l.names = some name)
    (hacks : ∀ queue, l.acks queue = false) (hw : w'.store.workflows = ∅)
    (hq : ∀ queue, w'.store.queues.lookup queue = expectedItem queue (ls ++ [l]))
    (hj : ∀ id r, w'.store.jobs.lookup id = some r →
      r.queue = name ∨ w.store.jobs.lookup id = some r) : Books (ls ++ [l]) w' := by
  have hmem : ∀ queue, queue ∈ namedQueues (ls ++ [l]) ↔ queue ∈ namedQueues ls ∨ name = queue := by
    intro queue
    rw [namedQueues_append, hl, List.mem_append, Option.mem_toList, Option.some.injEq]
  refine ⟨hw, hq, fun id r hr => (hmem _).mpr ?_, fun queue hout => ?_⟩
  · rcases hj id r hr with rfl | hr
    · exact .inr rfl
    · exact .inl (h.jobs id r hr)
  · rw [ackCount_append, hacks]
    exact h.unnamed queue fun hin => hout ((hmem queue).mpr (.inl hin))

/-- The queue of a new job is registered. -/
theorem Books.registerQueue (h : Books ls w) {name : String} (hl : l.names = some name)
    (hidle : ∀ queue, l.pauses queue = none ∧ l.acks queue = false) (queue : String) :
    (w.registerQueue name).store.queues.lookup queue = expectedItem queue (ls ++ [l]) := by
  rw [expectedItem_append, hl, (hidle queue).1, (hidle queue).2, World.registerQueue]
  by_cases hin : queue ∈ namedQueues ls
  · have hitem := h.items queue
    rw [expectedItem, if_pos hin] at hitem
    rw [if_pos (.inl hin)]
    split
    · exact hitem
    · rename_i hnone
      have hne : queue ≠ name := fun he => by rw [he, hnone] at hitem; cases hitem
      exact (AList.lookup_insert_ne hne).trans hitem
  · have hitem := h.items queue
    rw [expectedItem, if_neg hin] at hitem
    by_cases he : name = queue
    · subst he
      rw [if_pos (.inr rfl), hitem, pausedLast_unnamed hin, h.unnamed _ hin]
      exact AList.lookup_insert _
    · rw [if_neg fun h => h.elim hin fun h => he (Option.some.inj h)]
      split
      · exact hitem
      · exact (AList.lookup_insert_ne fun h => he h.symm).trans hitem

/-- A call that names no queue, but an Ack may count for one. -/
theorem Books.counted (h : Books ls w) {name : String} (hin : name ∈ namedQueues ls)
    (hnames : l.names = none) (hl : ∀ queue, l.pauses queue = none ∧
      l.acks queue = decide (name = queue)) (hw : w'.store.workflows = ∅)
    (hq : w'.store.queues = (w.addCompleted name).store.queues)
    (hj : ∀ id r, w'.store.jobs.lookup id = some r → r.queue ∈ namedQueues ls) :
    Books (ls ++ [l]) w' := by
  have hsame : namedQueues (ls ++ [l]) = namedQueues ls := by
    rw [namedQueues_append, hnames]
    exact List.append_nil _
  have hitem : w.store.queueItem name =
      { name := some name, paused := pausedLast name ls, completed := ackCount name ls } := by
    rw [Store.queueItem, h.items, expectedItem, if_pos hin]
    rfl
  refine ⟨hw, fun queue => ?_, by rw [hsame]; exact hj, fun queue hout => ?_⟩
  · rw [hq, expectedItem, hsame, pausedLast_append, ackCount_append, (hl queue).1, (hl queue).2]
    change (w.store.queues.insert name { w.store.queueItem name with
      completed := (w.store.queueItem name).completed + 1 }).lookup queue = _
    by_cases he : queue = name
    · subst he
      rw [AList.lookup_insert, hitem, if_pos hin, decide_eq_true rfl]
      rfl
    · have hne : name ≠ queue := fun h => he h.symm
      rw [AList.lookup_insert_ne he, h.items, expectedItem, decide_eq_false hne]
      rfl
  · rw [hsame] at hout
    have hne : name ≠ queue := fun h => hout (h ▸ hin)
    rw [ackCount_append, (hl queue).2, decide_eq_false hne]
    exact h.unnamed queue hout

variable (hρ : ρ.faults = false)
include hρ

/-- A pause or a resume of a registered queue. -/
theorem Books.setPaused (h : Books ls w) {name : String} {paused : Bool}
    (hl : l.names = some name) (hacks : ∀ queue, l.acks queue = false)
    (hpauses : ∀ queue, l.pauses queue = if name = queue then some paused else none)
    (hreg : Registered w name) :
    wp ρ.env.every (setQueuePaused name paused) (fun _ w' => Books (ls ++ [l]) w') w := by
  rw [setQueuePaused, wp_request hρ rfl rfl]
  refine h.named hl hacks h.workflows (fun queue => ?_) fun id r hr => .inr hr
  have hname : name ∈ namedQueues ls := h.registered.mp hreg
  have hitem : w.store.queueItem name =
      { name := some name, paused := pausedLast name ls, completed := ackCount name ls } := by
    rw [Store.queueItem, h.items, expectedItem, if_pos hname]
    rfl
  change (w.store.queues.insert name
    { w.store.queueItem name with paused := paused }).lookup queue = _
  rw [expectedItem_append, hl, hpauses, hacks]
  by_cases hq : queue = name
  · subst hq
    rw [AList.lookup_insert, hitem, if_pos (.inl hname), if_pos rfl]
    rfl
  · have hne : name ≠ queue := fun h => hq h.symm
    rw [AList.lookup_insert_ne hq, h.items, expectedItem, if_neg hne]
    refine if_congr ?_ rfl rfl
    exact ⟨.inl, fun hin => hin.resolve_right fun he => hne (Option.some.inj he)⟩

/-- The part of a Push that stores the job. -/
theorem Books.pushNew (h : Books ls w) {name : String} (now : Time) {job : Job}
    (hl : l.names = some name) (hidle : ∀ queue, l.pauses queue = none ∧ l.acks queue = false)
    (hqueue : job.queue = name) :
    wp ρ.env.every (pushNew cfg now job) (fun _ w' => Books (ls ++ [l]) w') w := by
  subst hqueue
  rw [wp_pushNew hρ]
  refine h.named hl (fun queue => (hidle queue).2) ?_ (fun queue => ?_) fun id r hr => ?_
  · rw [pushed_workflows]
    exact h.workflows
  · rw [pushed_queues]
    exact h.registerQueue hl hidle queue
  · rw [pushed_jobs] at hr
    by_cases hid : id = job.id
    · rw [hid, AList.lookup_insert] at hr
      cases hr
      exact .inl newJob_queue
    · rw [AList.lookup_insert_ne hid] at hr
      exact .inr hr

omit hρ in
/-- A Push that gives an existing job back names a registered queue. -/
theorem Books.existing (h : Books ls w) {name : String} (hin : name ∈ namedQueues ls)
    (hl : l.names = some name) (hidle : ∀ queue, l.pauses queue = none ∧ l.acks queue = false) :
    Books (ls ++ [l]) w := by
  refine h.named hl (fun queue => (hidle queue).2) h.workflows (fun queue => ?_)
    fun _ _ hr => .inr hr
  have hitem := h.items name
  rw [expectedItem, if_pos hin] at hitem
  rw [← h.registerQueue hl hidle queue, World.registerQueue, hitem]

theorem Books.pushAssigned (h : Books ls w) {name : String} (now : Time) {job : Job}
    (hl : l.names = some name) (hidle : ∀ queue, l.pauses queue = none ∧ l.acks queue = false)
    (hqueue : job.queue = name)
    (hreg : name ∈ namedQueues ls ∨ ∀ policy, job.unique = some policy →
      w.store.uniqueKeys.lookup (computeFingerprint cfg policy job) = none) :
    wp ρ.env.every (pushAssigned cfg now job)
      (fun a w' => a.toOption.isSome → Books (ls ++ [l]) w') w := by
  rw [OjsSqs.pushAssigned]
  cases hu : job.unique with
  | none => exact wp_mono (Env.every_mono _) _ (h.pushNew hρ now hl hidle hqueue) fun _ _ h _ => h
  | some policy =>
    simp only
    rw [wp_bind]
    have hnew : ∀ w : World, Books ls w →
        wp ρ.env.every (OjsSqs.pushNew cfg now (sortUniqueKeys policy job))
          (fun a w' => a.toOption.isSome → Books (ls ++ [l]) w') w := fun w h =>
      wp_mono (Env.every_mono _) _ (h.pushNew hρ now hl hidle hqueue) fun _ _ h _ => h
    rcases hreg with hin | hfree
    · have hkept : KeptByMoves ρ (Books ls) := books_kept
      refine wp_mono (Env.every_mono _) _ (hkept.pushUnique hρ policy job w h) fun a w₁ h₁ => ?_
      cases a with
      | error e =>
        intro hsome
        cases hsome
      | ok existing =>
        cases existing with
        | some existing => exact fun _ => h₁.existing hin hl hidle
        | none => exact hnew w₁ h₁
    · exact wp_pushUnique_free hρ (hfree policy hu) fun t _ => hnew _ (h.of_tables rfl rfl rfl)

/-- What a successful Push leaves. -/
theorem Books.push (h : Books ls w) {job : Job} {name : String}
    (hl : l.names = some name) (hidle : ∀ queue, l.pauses queue = none ∧ l.acks queue = false)
    (hqueue : job.queue = name)
    (hreg : name ∈ namedQueues ls ∨ ∀ policy, job.unique = some policy →
      w.store.uniqueKeys.lookup (computeFingerprint cfg policy job) = none) :
    wp ρ.env.every (push cfg job) (fun a w' => a.toOption.isSome → Books (ls ++ [l]) w') w := by
  rw [push_eq, wp_bind]
  refine wp_timeNow fun t _ => ?_
  have hclock : Books ls (w.setClock t) := h.of_tables rfl rfl rfl
  have hassigned : ∀ i, wp ρ.env.every (OjsSqs.pushAssigned cfg t (assigned cfg t i job))
      (fun a w' => a.toOption.isSome → Books (ls ++ [l]) w') (w.setClock t) :=
    fun i => hclock.pushAssigned hρ t hl hidle hqueue hreg
  rw [wp_bind, assignID]
  split
  · exact wp_newUUIDv7 fun i _ _ _ => hassigned i
  · exact hassigned job.id

omit hρ in
/-- The world of an Ack before its workflow is told. -/
theorem acked_tables (id : String) (r : JobRecord) (result : Option String) (t : Time) :
    (w.acked cfg id r result t).store = ((w.setJob id
      (r.moved .completed (ackUpdates (cfg.formatTime t) result))).addCompleted r.queue).store := by
  simp only [World.acked, World.addCompleted, World.setQueues, World.setJob,
    World.dropMessage_store]
  rfl

/-- An Ack where no workflow is stored: exactly its answer. -/
theorem wp_ack_lone {id : String} {r : JobRecord} {result : Option String}
    (hw : w.store.workflows = ∅) (hr : w.store.jobs.lookup id = some r)
    {Q : Except Error AckResponse → World → Prop}
    (hnot : r.state ≠ .active → Q (.error (notActiveError "acknowledge" id r.state)) w)
    (hack : r.state = .active → ∀ t, ρ.mayShow w t → Q (.ok ⟨id, .completed, cfg.formatTime t,
      some (recordToJob (r.moved .completed (ackUpdates (cfg.formatTime t) result)))⟩)
        (w.acked cfg id r result t)) :
    wp ρ.env.every (OjsSqs.ack cfg id result) Q w := by
  rw [OjsSqs.ack, wp_bind, wp_getJob_some hρ hr]
  simp only [wp_ite, wp_pure, wp_bind]
  split
  · rename_i hs
    exact hnot hs
  · rename_i hs
    refine wp_nowFormatted cfg fun t ht => ?_
    rw [wp_dropMessage cfg hρ]
    have hr₁ : ((w.setClock t).dropMessage cfg r).store.jobs.lookup id = some r := by
      rw [World.dropMessage_store]
      exact hr
    rw [wp_updateJobState_some hρ hr₁]
    simp only [wp_bind]
    have hw₁ : (w.acked cfg id r result t).store.workflows = ∅ := by
      rw [acked_tables]
      exact hw
    rw [wp_incrementQueueCompleted hρ]
    refine (wp_advanceWorkflowOf cfg hρ hw₁ _).mpr ?_
    have hstored : (w.acked cfg id r result t).store.jobs.lookup id =
        some (r.moved .completed (ackUpdates (cfg.formatTime t) result)) :=
      World.setJob_lookup id _
    rw [wp_info_some hρ hstored]
    exact hack (not_not.mp hs) t ht

/-- What a successful Ack leaves. -/
theorem Books.ack (h : Books ls w) (id : String) (result : Option String) :
    wp ρ.env.every (ack cfg id result) (fun a w' => ∀ response, a = .ok response →
      Books (ls ++ [.op (.job (.ack id result)) (.ok response)]) w') w := by
  cases hr : w.store.jobs.lookup id with
  | none =>
    rw [OjsSqs.ack, wp_bind, wp_getJob_none hρ hr]
    exact fun _ h => by cases h
  | some r =>
    refine wp_ack_lone hρ h.workflows hr (fun _ _ h => by cases h) fun _ t _ response he => ?_
    obtain rfl := Except.ok.inj he
    have hkept : KeptByMoves ρ (Books ls) := books_kept
    have hmoved : Books ls (w.setJob id
        (r.moved .completed (ackUpdates (cfg.formatTime t) result))) :=
      hkept.moved w id r .completed _ h hr
    have hacks : ∀ queue, (SystemLabel.op (.job (.ack id result)) (.ok ⟨id, .completed,
        cfg.formatTime t, some (recordToJob (r.moved .completed
          (ackUpdates (cfg.formatTime t) result)))⟩)).acks queue = decide (r.queue = queue) := by
      intro queue
      rw [← JobRecord.moved_queue r .completed (ackUpdates (cfg.formatTime t) result)]
      exact decide_eq_decide.mpr Option.some_inj
    refine hmoved.counted (h.jobs id r hr) rfl (fun queue => ⟨rfl, hacks queue⟩) ?_ ?_ ?_
    · rw [acked_tables]
      exact h.workflows
    · rw [acked_tables]
    · rw [acked_tables]
      exact hmoved.jobs

/-! ## The runs keep the books -/

/-- **One step.** -/
theorem QueueStep.books {lib : CronLib} (h : Books ls w) (hok : QueueRun cfg w l)
    (hs : QueueStep cfg lib ρ w l w') : Books (ls ++ [l]) w' := by
  obtain ⟨hcall, hnamed⟩ := hok
  cases hs with
  | op o a hd hr =>
    cases o with
    | job o =>
      cases o with
      | push job =>
        cases a with
        | error e => cases hcall
        | ok j =>
          have hpush := h.push (l := .op (.job (.push job)) (.ok j)) hρ rfl
            (fun _ => ⟨rfl, rfl⟩) rfl (hnamed.imp_left h.registered.mp)
          exact (wp_iff_runs _ _ _ _).mp hpush _ w' hr rfl
      | ack id result =>
        cases a with
        | error e => cases hcall
        | ok response => exact (wp_iff_runs _ _ _ _).mp (h.ack hρ id result) _ w' hr response rfl
      | fetch fuel queues count worker vis =>
        have hkept : KeptByMoves ρ (Books ls) := books_kept
        have hfetch := (wp_iff_runs _ _ _ _).mp
          (hkept.fetch hρ fuel queues count worker vis w h) a w' hr
        exact hfetch.idle ⟨rfl, fun _ => ⟨rfl, rfl⟩⟩
      | _ => cases hcall
    | pauseQueue name =>
      cases a with
      | error e => cases hcall
      | ok u =>
        have hset := h.setPaused (l := .op (.pauseQueue name) (.ok u)) hρ rfl (fun _ => rfl)
          (fun _ => rfl) hnamed
        exact (wp_iff_runs _ _ _ _).mp hset _ w' hr
    | resumeQueue name =>
      cases a with
      | error e => cases hcall
      | ok u =>
        have hset := h.setPaused (l := .op (.resumeQueue name) (.ok u)) hρ rfl (fun _ => rfl)
          (fun _ => rfl) hnamed
        exact (wp_iff_runs _ _ _ _).mp hset _ w' hr
    | _ => cases hcall
  | env l hl hs =>
    refine Books.idle ?_ ⟨rfl, fun _ => ⟨rfl, rfl⟩⟩
    cases hs with
    | op o a => cases hl
    | expireVisibility m => exact h.of_tables rfl rfl rfl
    | ensureDLQ queue url hb hr =>
      have hstore := wp_runs (wp_aside ((only_ensureDLQ cfg queue url).mono fun _ hc => hc.2)) hr
      exact h.of_tables (congrArg Store.workflows hstore) (congrArg Store.queues hstore)
        (congrArg Store.jobs hstore)
    | tick t _ => exact h.of_tables rfl rfl rfl
    | expireKey => exact h.of_tables rfl rfl rfl

/-- **Every run.** -/
theorem run_books {lib : CronLib} {t : Time}
    (h : Path (Meeting (QueueRun cfg) (QueueStep cfg lib ρ)) (.start t) ls w) : Books ls w := by
  have hstart : Books [] (.start t) :=
    ⟨rfl, fun _ => rfl, fun _ _ hr => (by cases hr), fun _ _ => rfl⟩
  exact h.invariant hstart fun _ _ _ _ hbooks hs => hs.2.books hρ hbooks hs.1

omit hρ in
/-- The names in the table are those of the queues that were named. -/
theorem Books.names_perm (h : Books ls w) {table : List TableItem} (ht : HoldsQueues table w.store) :
    (table.filterMap TableItem.queueName?).Perm (namedQueues ls).dedup := by
  have hnames : w.store.queues.entries.filterMap (fun e => e.2.name) = w.store.queues.keys := by
    have hname : ∀ e ∈ w.store.queues.entries, e.2.name = some e.1 := by
      rintro ⟨queue, item⟩ he
      have hitem := (h.items queue).symm.trans (AList.mem_lookup_iff.mpr he)
      rw [expectedItem] at hitem
      split at hitem
      · cases hitem
        rfl
      · cases hitem
    rw [AList.keys, List.keys, ← List.filterMap_eq_map]
    exact List.filterMap_congr hname
  have hread : table.filterMap TableItem.queueName? =
      (table.filterMap TableItem.queue?).filterMap (·.name) := by
    rw [List.filterMap_filterMap]
    exact List.filterMap_congr fun item _ => by cases item <;> rfl
  have hmem : ∀ queue, queue ∈ w.store.queues.keys ↔ queue ∈ namedQueues ls := by
    intro queue
    rw [← AList.mem_keys, ← AList.lookup_isSome, h.items, expectedItem]
    split
    · rename_i hin
      exact iff_of_true rfl hin
    · rename_i hout
      exact iff_of_false nofun hout
  have hkeys : w.store.queues.keys.Perm (namedQueues ls).dedup := by
    rw [List.perm_ext_iff_of_nodup w.store.queues.keys_nodup (List.nodup_dedup _)]
    intro queue
    rw [hmem, List.mem_dedup]
  have hstored := ht.filterMap (·.name)
  rw [List.filterMap_map] at hstored
  rw [hread]
  exact hstored.trans ((List.Perm.of_eq hnames).trans hkeys)

omit hρ in
/-- The first page shows them all when it has all of their items. -/
theorem Books.listed_iff (h : Books ls w) {table : List TableItem} (ht : HoldsQueues table w.store)
    (split : Split) :
    (Paged.listQueues split table).insertionSort (· ≤ ·) =
        (namedQueues ls).dedup.insertionSort (· ≤ ·) ↔
      Read.listQueues.FirstPageHasAll split split table := by
  have hperm := h.names_perm ht
  have hsplit := split.filterMap_split none table TableItem.queueName?
  refine Iff.trans ⟨fun hs => ?_, fun hs => ?_⟩ (split.filterMap_first none table _)
  · -- a list of as many names leaves none for the other pages
    have hlen := congrArg List.length hs
    rw [List.length_insertionSort, List.length_insertionSort, ← hperm.length_eq, hsplit,
      List.length_append, Paged.listQueues] at hlen
    rw [hsplit, List.length_eq_zero_iff.mp (Nat.left_eq_add.mp hlen), List.append_nil]
  · have hpage : (Paged.listQueues split table).Perm (namedQueues ls).dedup := by
      rw [Paged.listQueues, hs]
      exact hperm
    have hsorted := ((List.perm_insertionSort (· ≤ ·) _).trans hpage).trans
      (List.perm_insertionSort (· ≤ ·) _).symm
    exact hsorted.eq_of_pairwise (fun _ _ _ _ => String.le_antisymm) (List.pairwise_insertionSort _ _)
      (List.pairwise_insertionSort _ _)

/-- **The queues that were named are shown**, with their pauses and Acks, when
their items are on the first page of the scan. -/
theorem listQueues_named {lib : CronLib} {t : Time}
    (h : Path (Meeting (QueueRun cfg) (QueueStep cfg lib ρ)) (.start t) ls w)
    {table : List TableItem} (ht : HoldsQueues table w.store) (split : Split) :
    ShowsNamed split table ls w ↔ Read.listQueues.FirstPageHasAll split split table := by
  have hbooks := run_books hρ h
  have hstatus : ∀ queue, queue ∈ namedQueues ls → w.store.isPaused queue = pausedLast queue ls := by
    intro queue hin
    rw [Store.isPaused, hbooks.items, expectedItem, if_pos hin]
    rfl
  have hcompleted : ∀ queue s s', (w.store.queueStats s s' table queue).completed =
      ackCount queue ls := by
    intro queue s s'
    rw [Store.queueStats, Store.completedCount, hbooks.items, expectedItem]
    split
    · rfl
    · rename_i hout
      exact (hbooks.unnamed queue hout).symm
  rw [← hbooks.listed_iff ht split]
  constructor
  · rintro ⟨hlist, -⟩
    have hnames := congrArg (List.map QueueInfo.name) hlist
    rw [Store.listQueues, List.map_map, List.map_map] at hnames
    exact (List.map_id _).symm.trans (hnames.trans (List.map_id _))
  · intro hlist
    refine ⟨?_, hcompleted⟩
    rw [Store.listQueues, hlist]
    refine List.map_congr_left fun queue hq => ?_
    rw [hstatus queue (List.mem_dedup.mp ((List.mem_insertionSort _).mp hq))]

end

/-! ## A pause that comes first -/

theorem SystemStep.queueStep {cfg : Config} {lib : CronLib} {ρ : Rules} {w w' : World}
    {l : SystemLabel} (hρ : ρ.reserved = []) (h : SystemStep cfg lib ρ w l w') :
    QueueStep cfg lib ρ w l w' := by
  cases h with
  | op o a _ hd hr =>
    refine .op o a hd ?_
    have hrun := runs_reserving (List.nil_subset _) hr
    have hsame : ρ.reserving [] = ρ := by
      rw [Rules.reserving, ← hρ]
    rwa [hsame] at hrun
  | env l hl hs => exact .env l hl hs

/-- A queue that a Push has registered, and then a pause. The response stops
after the item of the queue. -/
theorem listQueues_named_paused : ∃ ls w, namedQueues ls = ["default", "default"] ∧
    ShowsNamed ⟨fun _ => 0, false⟩ [.queue { name := some "default", paused := true }, .other] ls w := by
  have hrun : ((pushTo "default").run demo demoLib {} (.start 0)).bind (fun (l, w) =>
      ((pauseDemo "default").run demo demoLib {} w).map fun (l', w') =>
        (l.isQueueCall, l'.isQueueCall, w.store.queues.lookup "default",
          w'.store.queues.entries.map (·.2))) =
      some (true, true, some { name := some "default" },
        [{ name := some "default", paused := true }]) := rfl
  obtain ⟨⟨l, w⟩, hpush, hrun⟩ := Option.bind_eq_some_iff.mp hrun
  obtain ⟨⟨l', w'⟩, hpause, hrun⟩ := Option.map_eq_some_iff.mp hrun
  obtain ⟨hl, hrun⟩ := Prod.mk.inj hrun
  obtain ⟨hl', hrun⟩ := Prod.mk.inj hrun
  obtain ⟨hitem, hitems⟩ := Prod.mk.inj hrun
  obtain ⟨a, rfl, -⟩ := SystemAct.run_op hpush
  obtain ⟨a', rfl, -⟩ := SystemAct.run_op hpause
  have hok : QueueRun demo (.start 0) (.op (.job (.push _)) a) := ⟨hl, .inr fun _ h => by cases h⟩
  have hok' : QueueRun demo w (.op (.pauseQueue "default") a') := ⟨hl', _, hitem, rfl⟩
  have hfirst : Path (Meeting (QueueRun demo) (QueueStep demo demoLib {})) (.start 0)
      [.op (.job (.push _)) a] w := .single ⟨hok, (SystemAct.run_step hpush).queueStep rfl⟩
  have hpath := hfirst.snoc ⟨hok', (SystemAct.run_step hpause).queueStep rfl⟩
  have hholds : HoldsQueues [.queue { name := some "default", paused := true }, .other] w'.store := by
    rw [HoldsQueues, hitems]
    rfl
  refine ⟨_, w', rfl, (listQueues_named rfl hpath hholds _).mpr ?_⟩
  exact fun item hi => by rw [List.mem_singleton.mp hi]; rfl

/-- A pause makes an item without a name, and the queue is not listed. -/
theorem listQueues_unnamed : ¬ ∀ (cfg : Config) (lib : CronLib) (ρ : Rules) (t : Time)
    (ls : List SystemLabel) (w : World) (table : List TableItem) (split : Split), ρ.faults = false →
    Path (Meeting (fun _ l => l.isQueueCall = true) (QueueStep cfg lib ρ)) (.start t) ls w →
    HoldsQueues table w.store → Read.listQueues.FirstPageHasAll split split table →
    ShowsNamed split table ls w := by
  intro hall
  have hrun : ((pauseDemo "q1").run demo demoLib {} (.start 0)).map
      (fun (l, w) => (l.isQueueCall, w.store.queues.entries.map (·.2))) =
      some (true, [{ paused := true }]) := rfl
  obtain ⟨⟨l, w⟩, hpause, hrun⟩ := Option.map_eq_some_iff.mp hrun
  obtain ⟨hl, hitems⟩ := Prod.mk.inj hrun
  obtain ⟨a, rfl, -⟩ := SystemAct.run_op hpause
  have hpath : Path (Meeting (fun _ l => l.isQueueCall = true) (QueueStep demo demoLib {})) (.start 0)
      [.op (.pauseQueue "q1") a] w := .single ⟨hl, (SystemAct.run_step hpause).queueStep rfl⟩
  have hholds : HoldsQueues [.queue { paused := true }] w.store := by
    rw [HoldsQueues, hitems]
    rfl
  have h := (hall demo demoLib {} 0 _ w [.queue { paused := true }] ⟨fun _ => 0, false⟩ rfl hpath hholds
    (fun item hi => by cases hi)).1
  cases h

end OjsSqs
