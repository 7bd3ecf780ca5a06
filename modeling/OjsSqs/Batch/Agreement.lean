import OjsSqs.Batch.Outcome
import OjsSqs.Faults.Traces

/-! # A batch and its jobs pushed one by one

PushBatch stores and sends its jobs without a look at their schedules and
policies. So it agrees with a Push of each of them, up to times and the order
of messages, when no job has a policy and none is scheduled for later; any
other job gets a message more from the batch, or is not given its key. -/
namespace OjsSqs
open Calls

/-! ## Up to times -/

/-- The record without the times of its enqueuing. -/
def JobRecord.untimed (r : JobRecord) : JobRecord :=
  { r with createdAt := "", enqueuedAt := "", gsi1sk := "", gsi2sk := "" }

/-- The job without the times of its enqueuing. -/
def Job.untimed (job : Job) : Job := { job with createdAt := "", enqueuedAt := "" }

/-- The message without its number and the times of its job. -/
def Message.untimed (m : Message) : Message := { m with id := 0, body := m.body.map Job.untimed }

/-- The tables but those of the jobs and the keys. -/
def Store.others (s : Store) : Store := { s with jobs := ∅, uniqueKeys := ∅ }

/-- The stores agree up to times: those of the records, and those of the keys. -/
structure SameStore (s s' : Store) : Prop where
  jobs : ∀ id, (s.jobs.lookup id).map JobRecord.untimed = (s'.jobs.lookup id).map JobRecord.untimed
  keys : ∀ fp, (s.uniqueKeys.lookup fp).map (·.jobID) = (s'.uniqueKeys.lookup fp).map (·.jobID)
  others : s.others = s'.others

/-- The worlds agree up to times and the order of messages. -/
structure SameUpToTimes (w w' : World) : Prop where
  store : SameStore w.store w'.store
  messages : (w.sqs.messages.map Message.untimed).Perm (w'.sqs.messages.map Message.untimed)

/-! ## One by one -/

/-- A Push reads the clock first; the ghost keeps what it showed. -/
def firstNow : Note World Call Answer (Option Time)
  | .proc .now, t, _, _, g => g.or (some t)
  | _, _, _, _, g => g

/-- The jobs are pushed one after the other, whatever each Push returns, and
each Push reads its instant. -/
inductive PushedEach (cfg : Config) (ρ : Rules) : List Job → List Time → World → World → Prop where
  | nil (w : World) : PushedEach cfg ρ [] [] w w
  | cons {job : Job} {jobs : List Job} {t : Time} {ts : List Time} {w w' w'' : World}
      {a : Except Error Job} :
    Runs (ρ.env.withGhost firstNow) (push cfg job) (w, none) a (w', some t) →
    PushedEach cfg ρ jobs ts w' w'' → PushedEach cfg ρ (job :: jobs) (t :: ts) w w''

/-- What PushBatch does not look at is not there: no job has a policy, and
none lies in the future when it is pushed. -/
def Immediate (cfg : Config) (jobs : List Job) (ts : List Time) : Prop :=
  (∀ job ∈ jobs, job.unique = none) ∧ ∀ p ∈ jobs.zip ts, futureInstant cfg p.2 p.1 = none

/-- The encoding has one length for all instants: `FormatTime` writes them in
one width. -/
def SteadySize (cfg : Config) : Prop := ∀ job t t',
  cfg.marshalSize (batchJob cfg t job.id job) = cfg.marshalSize (batchJob cfg t' job.id job)

section
variable {cfg : Config} {ρ : Rules} {w w' : World} {job : Job}

/-- The ghost of a Push has its instant when the rest of the Push begins. -/
theorem wp_push (job : Job) (hid : job.id ≠ "") {Q : Except Error Job → World × Option Time → Prop}
    (h : ∀ t, ρ.mayShow w t → wp ρ.env.every
      (do
        let job := { job with createdAt := cfg.formatTime t, attempt := 0 }
        match job.unique with
        | none => pushNew cfg t job
        | some policy =>
          match ← pushUnique cfg policy job with
          | .error e => return .error e
          | .ok (some existing) => return .ok existing
          | .ok none => pushNew cfg t (sortUniqueKeys policy job))
      (fun a w' => Q a (w', some t)) (w.setClock t)) :
    wp (ρ.env.withGhost firstNow).every (push cfg job) Q (w, none) := by
  have hkeep : ∀ {α : Type} (p : M α), p.Only fun _ => True := by
    intro α p
    induction p with
    | pure a => trivial
    | call c k ih => exact ⟨trivial, ih⟩
  rw [push, wp_bind]
  refine wp_ghost (wp_timeNow fun t ht => ?_)
  rw [assignID, if_neg hid, Prog.pure_bind]
  refine wp_ghost_only (hkeep _) (fun c r w w' _ => ?_) (h t ht)
  cases c with
  | dynamo d => rfl
  | sqs c => rfl
  | proc c => cases c <;> rfl

end

/-! ## A Push sends at most one message -/

/-- The call sends nothing. -/
def Call.keepsMessages : Call → Bool
  | .sqs (.createQueue _) | .sqs (.deleteMessage _ _) => true
  | .sqs _ => false
  | _ => true

/-- At most `n` messages more, and the keys that were taken are taken still. -/
structure Grows (n : Nat) (w w' : World) : Prop where
  messages : w'.sqs.messages.length ≤ w.sqs.messages.length + n
  keys : ∀ fp, (w.store.uniqueKeys.lookup fp).isSome → (w'.store.uniqueKeys.lookup fp).isSome

theorem Grows.refl (w : World) : Grows 0 w w := ⟨le_refl _, fun _ h => h⟩

theorem Grows.trans {m n : Nat} {w w' w'' : World} (h : Grows m w w') (h' : Grows n w' w'') :
    Grows (m + n) w w'' := by
  refine ⟨?_, fun fp hs => h'.keys fp (h.keys fp hs)⟩
  have h₁ := h.messages
  have h₂ := h'.messages
  omega

section
variable {cfg : Config} {ρ : Rules} {w w' w'' : World} {job : Job} {n : Nat}
  (hρ : ρ.faults = false)

theorem Grows.call {c : Call} {r : Answer c} (hc : c.keepsMessages = true) (h : Grows n w w')
    (he : ρ.env c w' r w'') : Grows n w w'' := by
  refine ⟨le_trans ?_ h.messages, fun fp hs => ?_⟩
  · cases c with
    | dynamo d =>
      obtain ⟨_, _, -, -, rfl⟩ := Rules.env_dynamo he
      exact le_refl _
    | proc c => rw [Rules.env_proc_sqs he]
    | sqs c =>
      have hb : ∀ url entries, c ≠ .sendMessageBatch url entries := by
        rintro url entries rfl
        cases hc
      have hrecv : c.isReceive = false := by cases c <;> first | rfl | cases hc
      rcases Rules.env_sqs_cases hrecv hb he with ⟨msg, rfl, rfl⟩ | ⟨rfl, rfl⟩
      · exact le_refl _
      · cases c with
        | createQueue name =>
          simp only [World.setSqs, SqsCall.run, SqsState.createQueue_messages]
          exact le_refl _
        | deleteMessage url handle => exact List.length_filter_le _ _
        | _ => cases hc
  · obtain ⟨item, hi⟩ := Option.isSome_iff_exists.mp (h.keys fp hs)
    rw [Rules.env_keyStays he hi]
    rfl

theorem only_pushUnique (policy : UniquePolicy) (job : Job) :
    (pushUnique cfg policy job).Only (·.keepsMessages = true) := by
  have hcancels : ∀ (h : String) (c : Call), c.cancels h → c.keepsMessages = true := by
    intro h c hc
    cases c with
    | sqs c => cases c <;> first | rfl | exact hc.elim
    | _ => rfl
  refine Prog.only_bind ?_ fun a => ?_
  · refine Prog.only_bind (Prog.only_bind (Prog.only_perform rfl) fun a => ?_) fun a => ?_
    · split <;> exact Prog.only_pure _
    · split
      · exact Prog.only_pure _
      · split
        · exact Prog.only_pure _
        · exact (only_resolveConflict cfg policy _).mono (hcancels _)
  · split
    · exact Prog.only_pure _
    · exact Prog.only_pure _
    · refine Prog.only_bind ?_ fun a => ?_
      · refine Prog.only_bind (Prog.only_bind (Prog.only_perform rfl) fun t =>
          only_request (c := .putUniqueItem _ _ _) rfl) fun a => ?_
        split
        · split <;> exact Prog.only_pure _
        · exact Prog.only_pure _
      · split <;> exact Prog.only_pure _

/-- The search for the holder of a key leaves the keys alone. -/
theorem wp_findExisting_keys (policy : UniquePolicy) (fp : String) :
    wp ρ.env.every (findExisting cfg policy fp)
      (fun _ w' => w'.store.uniqueKeys = w.store.uniqueKeys) w := by
  have hkeys : ∀ {c : Call} {w' w'' : World} {r : Answer c}, (∀ d, c = .dynamo d →
      (w'.store.run d).2.uniqueKeys = w'.store.uniqueKeys) →
      w'.store.uniqueKeys = w.store.uniqueKeys → ρ.env c w' r w'' →
      w''.store.uniqueKeys = w.store.uniqueKeys :=
    fun hc hw he => (Rules.env_frame (fun s => s.uniqueKeys) hc he).trans hw
  rw [findExisting, wp_bind, getUniqueKey, wp_bind]
  intro r w' he
  have hw' := hkeys (by rintro d hd; cases hd; rfl) rfl he
  cases r with
  | error e => exact hw'
  | ok found =>
    cases found with
    | none => exact hw'
    | some item =>
      show wp ρ.env.every (if item.jobID = "" then _ else _) _ w'
      rw [wp_ite]
      split
      · exact hw'
      · refine (only_resolveConflict cfg policy fp).keeps
          (fun w' : World => w'.store.uniqueKeys = w.store.uniqueKeys) (fun c w₁ r w₂ hc hi he => ?_) hw'
        refine hkeys (fun d hd => ?_) hi he
        subst hd
        cases d <;> first | rfl | exact hc.elim

include hρ in
/-- The unique part of a Push: it lets the Push go on only when it has taken the
key. -/
theorem wp_pushUnique (policy : UniquePolicy) (job : Job) :
    wp ρ.env.every (pushUnique cfg policy job) (fun a w' => Grows 0 w w' ∧
      (a = .ok none → w.store.uniqueKeys.lookup (computeFingerprint cfg policy job) = none ∧
        (w'.store.uniqueKeys.lookup (computeFingerprint cfg policy job)).isSome)) w := by
  have hgrows : wp ρ.env.every (pushUnique cfg policy job) (fun _ w' => Grows 0 w w') w :=
    (only_pushUnique policy job).keeps (Grows 0 w) (fun _ _ _ _ hc h he => h.call hc he) (.refl w)
  have hkey : wp ρ.env.every (pushUnique cfg policy job) (fun a w' => a = .ok none →
      w.store.uniqueKeys.lookup (computeFingerprint cfg policy job) = none ∧
        (w'.store.uniqueKeys.lookup (computeFingerprint cfg policy job)).isSome) w := by
    rw [pushUnique, wp_bind]
    refine wp_mono (Env.every_mono _) _ (wp_findExisting_keys policy _) fun a w₁ hw₁ => ?_
    cases a with
    | error e => exact fun h => by cases h
    | ok found =>
      cases found with
      | some j => exact fun h => by cases h
      | none =>
        simp only
        rw [wp_bind, claimUniqueKey, wp_bind, setUniqueKey, wp_bind]
        refine wp_timeNow fun t _ => ?_
        rw [request, wp_bind, wp_dynamo hρ rfl]
        simp only [Store.run, World.setClock, hw₁]
        cases hk : w.store.uniqueKeys.lookup (computeFingerprint cfg policy job) with
        | some item => exact fun h => by cases h
        | none =>
          refine fun _ => ⟨rfl, ?_⟩
          simp [World.setStore]
  refine (wp_iff_runs ρ.env _ _ _).mpr fun a w' hr => ?_
  have hg := wp_runs hgrows hr
  have hk := wp_runs hkey hr
  exact ⟨hg, hk⟩

include hρ in
/-- A new job is sent at most once, and not when it is scheduled for later. -/
theorem wp_pushNew_grows (t : Time) (job : Job) :
    wp ρ.env.every (pushNew cfg t job) (fun _ w' => Grows 1 w w' ∧
      (futureInstant cfg t job ≠ none → Grows 0 w w')) w := by
  rw [pushNew]
  cases hf : futureInstant cfg t job with
  | some at' =>
    simp only
    rw [pushScheduled]
    simp only
    rw [wp_bind, wp_putJob hρ]
    simp only
    rw [wp_bind, addScheduledJob, wp_addDueJob hρ]
    simp only
    rw [wp_bind, wp_registerQueue hρ]
    have hnone : ∀ n, Grows n w (((w.setJob job.id (jobToRecord { job with
        state := .scheduled, enqueuedAt := cfg.formatTime t })).addDue .scheduled job.id
          at'.unixMilli).registerQueue job.queue) := by
      intro n
      refine ⟨?_, fun fp hs => ?_⟩
      · rw [World.registerQueue_sqs]
        exact Nat.le_add_right _ _
      · rw [World.registerQueue]
        split <;> exact hs
    exact ⟨hnone 1, fun _ => hnone 0⟩
  | none =>
    simp only
    rw [pushAvailable]
    simp only
    rw [wp_bind, wp_putJob hρ]
    simp only
    rw [wp_bind, wp_registerQueue hρ]
    simp only
    rw [wp_bind, wp_sendToSQS cfg hρ]
    have hgrows : Grows 1 w ((w.storeJob { job with
        state := .available, enqueuedAt := cfg.formatTime t }).sendJob cfg { job with
          state := .available, enqueuedAt := cfg.formatTime t }) := by
      refine ⟨?_, fun fp hs => ?_⟩
      · rw [(Enqueued.sendJob _ _).length, World.storeJob_sqs]
        refine Nat.add_le_add_left ?_ _
        split <;> simp
      · rw [World.sendJob_store, World.storeJob_keys]
        exact hs
    cases encodeJob cfg { job with state := .available, enqueuedAt := cfg.formatTime t } with
    | error e => exact ⟨hgrows, fun h => absurd rfl h⟩
    | ok body => exact ⟨hgrows, fun h => absurd rfl h⟩

/-- What one Push of a job does to what the batch adds to. -/
structure Pushed (cfg : Config) (t : Time) (job : Job) (w w' : World) : Prop where
  grows : Grows 1 w w'
  later : job.unique = none → futureInstant cfg t job ≠ none → Grows 0 w w'
  unique : ∀ policy, job.unique = some policy → Grows 0 w w' ∨ ∃ fp,
    w.store.uniqueKeys.lookup fp = none ∧ (w'.store.uniqueKeys.lookup fp).isSome

include hρ in
theorem wp_push_pushed (hid : job.id ≠ "") :
    wp (ρ.env.withGhost firstNow).every (push cfg job)
      (fun _ x => ∃ t, x.2 = some t ∧ Pushed cfg t job w x.1) (w, none) := by
  refine wp_push job hid fun t _ => ?_
  have hnot : ∀ {policy p}, job.unique = some policy → job.unique = none → p :=
    fun h hn => absurd (h.symm.trans hn) nofun
  cases hu : job.unique with
  | none =>
    refine wp_mono (Env.every_mono _) _ (wp_pushNew_grows hρ t _) fun a w' ⟨h, hlater⟩ => ?_
    exact ⟨t, rfl, ⟨h.messages, h.keys⟩, fun _ hf => ⟨(hlater hf).messages, (hlater hf).keys⟩,
      fun _ hp => hnot hp hu⟩
  | some policy =>
    simp only
    rw [wp_bind]
    refine wp_mono (Env.every_mono _) _ (wp_pushUnique hρ policy _) fun a w' ⟨h, hkey⟩ => ?_
    have hstill : Grows 0 w w' := ⟨h.messages, h.keys⟩
    have hended : Pushed cfg t job w w' :=
      ⟨⟨Nat.le_succ_of_le h.messages, h.keys⟩, hnot hu, fun _ _ => .inl hstill⟩
    cases a with
    | error e => exact ⟨t, rfl, hended⟩
    | ok found =>
      cases found with
      | some j => exact ⟨t, rfl, hended⟩
      | none =>
        obtain ⟨hfree, htaken⟩ := hkey rfl
        refine wp_mono (Env.every_mono _) _ (wp_pushNew_grows hρ t _) fun a w'' ⟨h', _⟩ => ?_
        have hboth := hstill.trans h'
        exact ⟨t, rfl, ⟨hboth.messages, hboth.keys⟩, hnot hu,
          fun _ _ => .inr ⟨_, hfree, h'.keys _ htaken⟩⟩

include hρ in
/-- Pushes of which one is not immediate send less than the batch, or take a key. -/
theorem PushedEach.grows {jobs : List Job} {ts : List Time} (hids : ∀ job ∈ jobs, job.id ≠ "")
    (h : PushedEach cfg ρ jobs ts w w') : Grows jobs.length w w' ∧ (¬ Immediate cfg jobs ts →
      w'.sqs.messages.length < w.sqs.messages.length + jobs.length ∨
        ∃ fp, w.store.uniqueKeys.lookup fp = none ∧ (w'.store.uniqueKeys.lookup fp).isSome) := by
  induction h with
  | nil w =>
    refine ⟨.refl w, fun h => absurd ⟨fun _ hj => ?_, fun _ hp => ?_⟩ h⟩
    · cases hj
    · cases hp
  | @cons job jobs t ts w w₁ w₂ a hrun _ ih =>
    obtain ⟨hgrows, hbad⟩ := ih fun j hj => hids j (List.mem_cons_of_mem _ hj)
    obtain ⟨t', ht, hp⟩ := wp_runs (wp_push_pushed hρ (hids job List.mem_cons_self)) hrun
    obtain rfl : t = t' := Option.some.inj ht
    have hp : Pushed cfg t job w w₁ := hp
    refine ⟨?_, fun hnot => ?_⟩
    · have h := hp.grows.trans hgrows
      rwa [Nat.add_comm] at h
    · -- either this job is not immediate, or one of the rest
      have hlen := hgrows.messages
      have hlen₁ := hp.grows.messages
      have hshort : Grows 0 w w₁ → w₂.sqs.messages.length <
          w.sqs.messages.length + (job :: jobs).length := by
        intro h
        have := h.messages
        rw [List.length_cons]
        omega
      by_cases hu : job.unique = none
      · by_cases hf : futureInstant cfg t job = none
        · have hrest : ¬ Immediate cfg jobs ts := fun hi => hnot
            ⟨List.forall_mem_cons.mpr ⟨hu, hi.1⟩, List.forall_mem_cons.mpr ⟨hf, hi.2⟩⟩
          rcases hbad hrest with hlt | ⟨fp, hfree, htaken⟩
          · left
            rw [List.length_cons]
            omega
          · refine .inr ⟨fp, ?_, htaken⟩
            cases hk : w.store.uniqueKeys.lookup fp with
            | none => rfl
            | some item =>
              have hs := hp.grows.keys fp (by rw [hk]; rfl)
              rw [hfree] at hs
              cases hs
        · exact .inl (hshort (hp.later hu hf))
      · obtain ⟨policy, hpol⟩ := Option.ne_none_iff_exists'.mp hu
        rcases hp.unique policy hpol with h | ⟨fp, hfree, htaken⟩
        · exact .inl (hshort h)
        · exact .inr ⟨fp, hfree, hgrows.keys fp htaken⟩

/-! ## Immediate jobs -/

theorem World.storeJob_store {w w' : World} (h : w.store = w'.store) (job : Job) :
    (w.storeJob job).store = (w'.storeJob job).store := by
  simp only [World.storeJob, World.registerQueue, World.setJob, World.setQueues, h]
  split <;> rfl

theorem World.foldl_storeJob_keys (batch : List Job) :
    (batch.foldl World.storeJob w).store.uniqueKeys = w.store.uniqueKeys := by
  induction batch generalizing w with
  | nil => rfl
  | cons job batch ih => exact ih.trans (World.storeJob_keys job)

theorem World.storeJob_others (w : World) (job : Job) : (w.storeJob job).store.others =
    match w.store.queues.lookup job.queue with
    | some _ => w.store.others
    | none => { w.store.others with
        queues := w.store.queues.insert job.queue { name := some job.queue } } := by
  rw [World.storeJob, World.registerQueue]
  simp only [World.setJob]
  cases w.store.queues.lookup job.queue <;> rfl

include hρ in
/-- A Push of an immediate job that fits stores the job and sends it. -/
theorem wp_push_immediate (hid : job.id ≠ "") (hu : job.unique = none) :
    wp (ρ.env.withGhost firstNow).every (push cfg job) (fun _ x => ∃ t, x.2 = some t ∧
      (futureInstant cfg t job = none → encodes cfg (batchJob cfg t job.id job) = true →
        x.1.store = (w.storeJob (batchJob cfg t job.id job)).store ∧
          Enqueued cfg [batchJob cfg t job.id job] w x.1)) (w, none) := by
  refine wp_push job hid fun t _ => ?_
  cases hu' : job.unique with
  | some policy => cases hu.symm.trans hu'
  | none =>
    simp only
    rw [pushNew]
    split
    · rename_i hf
      refine wp_always ρ.env _ (fun _ _ => ⟨t, rfl, fun hf' => ?_⟩) _
      cases hf.symm.trans hf'
    · rw [pushAvailable]
      simp only
      rw [wp_bind, wp_putJob hρ]
      simp only
      rw [wp_bind, wp_registerQueue hρ]
      simp only
      rw [wp_bind, wp_sendToSQS cfg hρ]
      have hjob : batchJob cfg t job.id job = { job with
          createdAt := cfg.formatTime t, attempt := 0, unique := none, state := .available,
          enqueuedAt := cfg.formatTime t } := by rw [batchJob, hu']
      have hw : ∀ a : Except Error Job, wp ρ.env.every (Pure.pure a : M _) (fun _ w' =>
          ∃ t', some t = some t' ∧ (futureInstant cfg t' job = none →
            encodes cfg (batchJob cfg t' job.id job) = true →
            w'.store = (w.storeJob (batchJob cfg t' job.id job)).store ∧
              Enqueued cfg [batchJob cfg t' job.id job] w w'))
          (((w.setClock t).storeJob (batchJob cfg t job.id job)).sendJob cfg
            (batchJob cfg t job.id job)) := by
        refine fun a => ⟨t, rfl, fun _ hfit => ⟨?_, ?_⟩⟩
        · rw [World.sendJob_store]
          exact World.storeJob_store (show (w.setClock t).store = w.store from rfl) _
        · have hsend : Enqueued cfg _ _ (((w.setClock t).storeJob
              (batchJob cfg t job.id job)).sendJob cfg (batchJob cfg t job.id job)) := .sendJob _ _
          rw [if_pos hfit] at hsend
          refine Enqueued.trans (.none (fun queue => ?_) ?_) hsend
          · rw [World.urlOf, World.storeJob_urls]
            rfl
          · rw [World.storeJob_sqs]
            rfl
      rw [hjob] at hw
      cases (encodeJob cfg _ : Except Error Job) with
      | error e => exact hw _
      | ok body => exact hw _

theorem World.foldl_storeJob_store {w w' : World} (h : w.store = w'.store) (batch : List Job) :
    (batch.foldl World.storeJob w).store = (batch.foldl World.storeJob w').store := by
  induction batch generalizing w w' with
  | nil => exact h
  | cons job batch ih => exact ih (World.storeJob_store h job)

include hρ in
/-- Pushes of immediate jobs that fit, as the batch would have stamped them. -/
theorem PushedEach.immediate {jobs : List Job} {ts : List Time} (hids : ∀ job ∈ jobs, job.id ≠ "")
    (h : PushedEach cfg ρ jobs ts w w') (hi : Immediate cfg jobs ts)
    (hfit : ∀ job ∈ jobs, ∀ t, encodes cfg (batchJob cfg t job.id job) = true) :
    ∃ batch : List Job, batch.map Job.untimed = jobs.map (fun job => (batchJob cfg 0 job.id job).untimed) ∧
      w'.store = (batch.foldl World.storeJob w).store ∧ Enqueued cfg batch w w' := by
  induction h with
  | nil w => exact ⟨[], rfl, rfl, .none (fun _ => rfl) rfl⟩
  | @cons job jobs t ts w w₁ w₂ a hrun _ ih =>
    obtain ⟨hu, hfuture⟩ := hi
    obtain ⟨hu, hrestu⟩ := List.forall_mem_cons.mp hu
    obtain ⟨hf, hrestf⟩ := List.forall_mem_cons.mp hfuture
    obtain ⟨batch, hb, hstore, henq⟩ := ih (fun j hj => hids j (List.mem_cons_of_mem _ hj))
      ⟨hrestu, hrestf⟩ fun j hj => hfit j (List.mem_cons_of_mem _ hj)
    obtain ⟨t', ht, hp⟩ := wp_runs (wp_push_immediate hρ (hids job List.mem_cons_self) hu) hrun
    obtain rfl : t = t' := Option.some.inj ht
    obtain ⟨hstore₁, henq₁⟩ := hp hf (hfit job List.mem_cons_self t)
    refine ⟨batchJob cfg t job.id job :: batch, ?_, ?_, henq₁.trans henq⟩
    · rw [List.map_cons, hb, List.map_cons]
      rfl
    · rw [hstore, List.foldl_cons]
      exact World.foldl_storeJob_store hstore₁ batch

/-! ## Agreement -/

/-- Records that agree up to times are stored in stores that do. -/
theorem SameStore.storeJob {w w' : World} (h : SameStore w.store w'.store) {job job' : Job}
    (hj : job.untimed = job'.untimed) :
    SameStore (w.storeJob job).store (w'.storeJob job').store := by
  have hid : job.untimed.id = job'.untimed.id := by rw [hj]
  have hqueue : job.untimed.queue = job'.untimed.queue := by rw [hj]
  have hrecord : (jobToRecord job.untimed).untimed = (jobToRecord job'.untimed).untimed := by rw [hj]
  change job.id = job'.id at hid
  change job.queue = job'.queue at hqueue
  change (jobToRecord job).untimed = (jobToRecord job').untimed at hrecord
  refine ⟨fun id => ?_, fun fp => ?_, ?_⟩
  · rw [World.storeJob_jobs, World.storeJob_jobs, ← hid]
    by_cases h' : id = job.id
    · rw [h', AList.lookup_insert, AList.lookup_insert, Option.map_some, Option.map_some, hrecord]
    · rw [AList.lookup_insert_ne h', AList.lookup_insert_ne h', h.jobs]
  · rw [World.storeJob_keys, World.storeJob_keys, h.keys]
  · have hq : w.store.others.queues = w'.store.others.queues := by rw [h.others]
    change w.store.queues = w'.store.queues at hq
    rw [World.storeJob_others, World.storeJob_others, ← hqueue, ← hq, h.others]

theorem SameStore.foldl {w w' : World} (h : SameStore w.store w'.store) {batch batch' : List Job}
    (hb : batch.map Job.untimed = batch'.map Job.untimed) :
    SameStore (batch.foldl World.storeJob w).store (batch'.foldl World.storeJob w').store := by
  induction batch generalizing w w' batch' with
  | nil =>
    rw [List.map_eq_nil_iff.mp hb.symm]
    exact h
  | cons job batch ih =>
    cases batch' with
    | nil => cases hb
    | cons job' batch' =>
      obtain ⟨hj, hb⟩ := List.cons.inj hb
      exact ih (h.storeJob hj) hb

/-- A batch that is sent, and one that is sent as the other up to times. -/
theorem Enqueued.same {w w₁ w₂ : World} {batch₁ batch₂ : List Job} (h₁ : Enqueued cfg batch₁ w w₁)
    (h₂ : Enqueued cfg batch₂ w w₂)
    (hb : (batch₁.map Job.untimed).Perm (batch₂.map Job.untimed)) :
    (w₁.sqs.messages.map Message.untimed).Perm (w₂.sqs.messages.map Message.untimed) := by
  -- a new message is known, up to times, from its job up to times
  have hnew : ∀ {w' : World} {batch : List Job}, Enqueued cfg batch w w' →
      w'.sqs.messages.map Message.untimed = w.sqs.messages.map Message.untimed ++
        (batch.map Job.untimed).map fun job => (newMessage cfg w job).untimed := by
    intro w' batch h
    obtain ⟨new, hm, hnew⟩ := h.messages
    have hblank := congrArg (List.map Message.untimed) hnew
    rw [List.map_map, List.map_map] at hblank
    rw [hm, List.map_append, List.map_map]
    exact congrArg _ hblank
  rw [hnew h₁, hnew h₂]
  exact (hb.map _).append_left _

/-- A batch whose jobs have their identifiers. -/
theorem stampBatch_ids {jobs : List Job} (hids : ∀ job ∈ jobs, job.id ≠ "") (now : Time)
    (made : List String) :
    stampBatch cfg now jobs made = jobs.map fun job => batchJob cfg now job.id job := by
  induction jobs with
  | nil => rfl
  | cons job jobs ih =>
    rw [stampBatch, if_neg (hids job List.mem_cons_self), List.map_cons,
      ih fun j hj => hids j (List.mem_cons_of_mem _ hj)]

/-- What PushBatch leaves when it accepts the batch. -/
structure BatchAccepted (cfg : Config) (jobs : List Job) (now : Time) (w w' : World) : Prop where
  fit : ∀ job ∈ jobs, encodes cfg (batchJob cfg now job.id job) = true
  store : w'.store = ((jobs.map fun job => batchJob cfg now job.id job).foldl World.storeJob w).store
  enqueued : ∃ batch, batch.Perm (jobs.map fun job => batchJob cfg now job.id job) ∧
    Enqueued cfg batch w w'

theorem pushBatch_batchAccepted {jobs : List Job} (hids : ∀ job ∈ jobs, job.id ≠ "") :
    wp ρ.batching.every (pushBatch cfg jobs)
      (fun a x => ∀ l, a = .ok l → ∃ now, BatchAccepted cfg jobs now w x.1) (w, {}) := by
  rw [pushBatch, wp_ite]
  split
  · rename_i hempty
    intro l _
    rw [List.isEmpty_iff.mp hempty]
    exact ⟨0, fun _ hj => absurd hj List.not_mem_nil, rfl, [], .nil, .none (fun _ => rfl) rfl⟩
  cases hvalid : validateBatch cfg jobs with
  | some e => exact fun l hl => by cases hl
  | none =>
    simp only
    rw [wp_bind]
    refine wp_ghost (wp_timeNow fun now _ => ?_)
    rw [wp_bind]
    refine wp_mono (Env.every_mono _) _ (batching_storeBatch jobs [] rfl) fun a x hx => ?_
    obtain ⟨w₁, g₁⟩ := x
    obtain ⟨new, -, -, hx⟩ := hx
    cases a with
    | error e => exact fun l hl => by cases hl
    | ok stored =>
      obtain ⟨rfl, hx⟩ := hx
      have hworld : w₁ = _ := hx.world
      rw [stampBatch_ids hids] at hworld ⊢
      simp only [List.nil_append]
      rw [wp_bind]
      refine wp_mono (Env.every_mono _) _ batching_sendBatchToSQS fun a x hx' => ?_
      obtain ⟨batch, hperm, hx'⟩ := hx'
      cases a with
      | error e => exact fun l hl => by cases hl
      | ok u =>
        have hx' : AllSent cfg batch w₁ g₁ x := hx'
        refine fun l _ => ⟨now, fun job hj => ?_, ?_, batch, hperm, ?_⟩
        · exact hx'.fit _ (hperm.mem_iff.mpr (List.mem_map_of_mem hj))
        · rw [hx'.sent.store, hworld]
          exact World.foldl_storeJob_store (show (w.setClock now).store = w.store from rfl) _
        · have hstamped : Enqueued cfg [] w w₁ := by
            refine .none (fun queue => ?_) ?_
            · rw [World.urlOf, hworld, World.foldl_storeJob_sqs.2]
              rfl
            · rw [hworld, World.foldl_storeJob_sqs.1]
              rfl
          exact hstamped.trans hx'.sent.enqueued

/-- A job fits at any instant or at none. -/
theorem SteadySize.encodes (h : SteadySize cfg) (job : Job) (t t' : Time) :
    encodes cfg (batchJob cfg t job.id job) = encodes cfg (batchJob cfg t' job.id job) := by
  rw [OjsSqs.encodes, OjsSqs.encodes, encodeJob, encodeJob, h job t t']
  cases cfg.marshalSize (batchJob cfg t' job.id job) with
  | none => rfl
  | some size =>
    simp only
    split <;> rfl

include hρ in
/-- **A batch and its pushes.** When no call fails, an accepted batch leaves what
a Push of each of its jobs leaves, up to times and the order of messages, if
and only if no job of it has a policy or is scheduled for later. -/
theorem batch_agrees_with_pushes {jobs : List Job} {ts : List Time} {w₁ w₂ : World} {l : List Job}
    (hsize : SteadySize cfg) (hids : ∀ job ∈ jobs, job.id ≠ "")
    (hbatch : Runs ρ.env (pushBatch cfg jobs) w (.ok l) w₁)
    (heach : PushedEach cfg ρ jobs ts w w₂) :
    SameUpToTimes w₁ w₂ ↔ Immediate cfg jobs ts := by
  obtain ⟨g, hrun⟩ : ∃ g, Runs ρ.batching (pushBatch cfg jobs) (w, {}) (.ok l) (w₁, g) :=
    hbatch.follow _
  obtain ⟨now, hacc⟩ : ∃ now, BatchAccepted cfg jobs now w w₁ :=
    wp_runs (pushBatch_batchAccepted hids) hrun l rfl
  obtain ⟨batch, hperm, henq⟩ := hacc.enqueued
  constructor
  · intro hsame
    by_contra hnot
    rcases (heach.grows hρ hids).2 hnot with hlt | ⟨fp, hfree, htaken⟩
    · -- the batch has sent a message for each of its jobs
      have hlen := hsame.messages.length_eq
      have hlen' := henq.length
      have hbatch := hperm.length_eq
      simp only [List.length_map] at hlen hbatch
      omega
    · -- the batch has taken no key
      have hkeys := hsame.store.keys fp
      rw [hacc.store, World.foldl_storeJob_keys, hfree] at hkeys
      rw [Option.map_eq_none_iff.mp hkeys.symm] at htaken
      cases htaken
  · intro hi
    obtain ⟨batch₂, hb, hstore, henq₂⟩ := heach.immediate hρ hids hi fun job hj t =>
      (hsize.encodes job t now).trans (hacc.fit job hj)
    have hall : (jobs.map fun job => batchJob cfg now job.id job).map Job.untimed =
        batch₂.map Job.untimed := by
      rw [hb, List.map_map]
      rfl
    refine ⟨?_, henq.same henq₂ ?_⟩
    · rw [hacc.store, hstore]
      exact SameStore.foldl ⟨fun _ => rfl, fun _ => rfl, rfl⟩ hall
    · rw [← hall]
      exact hperm.map _

end

/-- Two jobs on two queues, in a batch and each by itself. -/
theorem batch_agrees_with_pushes_two : ∃ (l : List Job) (w₁ w₂ : World),
    Runs (Rules.env {}) (pushBatch demo twoJobs) {} (.ok l) w₁ ∧
    PushedEach demo {} twoJobs [0, 0] {} w₂ ∧ SameUpToTimes w₁ w₂ := by
  have hbatch : ((script (Rules.act {}) [.tick 0, .ok, .ok, .ok, .ok, .page ["mail", "default"], .ok, .ok,
      .ok, .ok, .ok, .ok, .ok, .ok, .ok, .ok] (pushBatch demo twoJobs) {}).map fun x =>
      x.1.toOption.isSome) = some true := rfl
  have hpush : ((script (ghostAct (Rules.act {}) firstNow) [.tick 0, .ok, .ok, .ok, .ok, .ok, .ok, .ok]
      (push demo demoJob) (({}, none) : World × Option Time)).bind fun x =>
        (script (ghostAct (Rules.act {}) firstNow) [.tick 0, .ok, .ok, .ok, .ok, .ok, .ok, .ok]
          (push demo { demoJob with id := "j2", queue := "mail" })
          ((x.2.1, none) : World × Option Time)).map fun y => (x.2.2, y.2.2)) =
      some (some 0, some 0) := rfl
  obtain ⟨⟨a, w₁⟩, hscript, ha⟩ := Option.map_eq_some_iff.mp hbatch
  obtain ⟨⟨a₁, w', t⟩, hscript₁, hrest⟩ := Option.bind_eq_some_iff.mp hpush
  obtain ⟨⟨a₂, w₂, t'⟩, hscript₂, ht⟩ := Option.map_eq_some_iff.mp hrest
  obtain ⟨ht, ht'⟩ := Prod.mk.inj ht
  have ht : t = some 0 := ht
  have ht' : t' = some 0 := ht'
  rw [ht] at hscript₁
  rw [ht'] at hscript₂
  cases a with
  | error e => cases ha
  | ok l =>
    have heach : PushedEach demo {} twoJobs [0, 0] {} w₂ :=
      .cons (ghost_script_runs _ hscript₁) (.cons (ghost_script_runs _ hscript₂) (.nil w₂))
    have hrun := script_runs _ hscript
    refine ⟨l, w₁, w₂, hrun, heach, (batch_agrees_with_pushes rfl (fun _ _ _ => rfl) ?_ hrun
      heach).mpr ⟨?_, ?_⟩⟩
    · decide
    · decide
    · decide

/-- A job for the next second, which a batch sends at once. -/
def laterJob : Job := { demoJob with scheduledAt := "1970-01-01T00:00:01Z" }

theorem batch_ignores_schedule : ¬ ∀ (cfg : Config) (ρ : Rules) (w w₁ w₂ : World) (jobs l : List Job)
    (ts : List Time), ρ.faults = false → SteadySize cfg → (∀ job ∈ jobs, job.id ≠ "") →
    (jobs.map (·.id)).Nodup → Runs ρ.env (pushBatch cfg jobs) w (.ok l) w₁ →
    PushedEach cfg ρ jobs ts w w₂ → SameUpToTimes w₁ w₂ := by
  intro hall
  have hbatch : ((script (Rules.act {}) [.tick 0, .ok, .ok, .page ["default"], .ok, .ok, .ok, .ok, .ok]
      (pushBatch demo [laterJob]) {}).map fun x => (x.1.toOption.isSome, x.2.sqs.messages.length)) =
      some (true, 1) := rfl
  have hpush : ((script (ghostAct (Rules.act {}) firstNow) [.tick 0, .ok, .ok, .ok]
      (push demo laterJob) (({}, none) : World × Option Time)).map fun x =>
        (x.2.1.sqs.messages.length, x.2.2)) = some (0, some 0) := rfl
  obtain ⟨⟨a, w₁⟩, hscript, ha⟩ := Option.map_eq_some_iff.mp hbatch
  obtain ⟨⟨a', w₂, t⟩, hscript', ht⟩ := Option.map_eq_some_iff.mp hpush
  obtain ⟨ha, hone⟩ := Prod.mk.inj ha
  obtain ⟨hnone, ht⟩ := Prod.mk.inj ht
  have ht : t = some 0 := ht
  rw [ht] at hscript'
  cases a with
  | error e => cases ha
  | ok l =>
    have hsame := hall demo {} {} w₁ w₂ [laterJob] l [0] rfl (fun _ _ _ => rfl)
      (List.forall_mem_singleton.mpr (by decide)) (List.nodup_singleton _) (script_runs _ hscript)
      (.cons (ghost_script_runs _ hscript') (.nil w₂))
    have hlen := hsame.messages.length_eq
    rw [List.length_map, List.length_map] at hlen
    have hone : w₁.sqs.messages.length = 1 := hone
    have hnone : w₂.sqs.messages.length = 0 := hnone
    omega

end OjsSqs
