import OjsSqs.Cron.Turns
import OjsSqs.System.Unposted

/-! # The jobs of the runs on their way

Any number of runs of `FireCronJobs` push jobs at a time, and between their
calls operations are made on other jobs. The places of the stored jobs stay in
agreement: a job that a run has stored and not sent is left alone until the run
sends it. -/
namespace OjsSqs
open Calls

/-- The run has stored the job and not sent it. -/
def Round.Brings (r : JobRecord) (url : Option String) (s : Round) : Prop :=
  ∃ crons key, s = .going crons (some (key, .stored r url))

/-- The job a call of a run stores or sends. -/
def Call.brings : Call → Option String
  | .dynamo (.putJobItem r) => some r.id
  | .sqs (.sendMessage _ m) => some m.body.id
  | _ => none

/-- A job that is stored has an identifier that is not empty and not in use. -/
def StoresUnused (w : World) (c : Call) : Prop :=
  ∀ r ∈ c.putRecord, r.id ≠ "" ∧ w.store.jobs.lookup r.id = none

instance (w : World) (c : Call) : Decidable (StoresUnused w c) :=
  inferInstanceAs (Decidable (∀ r ∈ c.putRecord, r.id ≠ "" ∧ w.store.jobs.lookup r.id = none))

/-- What holds of a job a run is about to send. -/
structure Ready (cfg : Config) (r : JobRecord) (url : Option String) (w : World) : Prop where
  unposted : Unposted r w
  state : r.state = .available
  handle : r.sqsReceiptHandle = none
  url : ∀ u, url = some u → u = sqsQueueName cfg r.queue

/-- The places of the jobs agree, and a job on its way is ready and belongs to
one run. -/
structure Outgoing (cfg : Config) {ι : Type} (w : World) (t : ι → Round) : Prop where
  agrees : Agrees cfg w
  ready : ∀ i r url, (t i).Brings r url → Ready cfg r url w
  apart : ∀ i j r url r' url', (t i).Brings r url → (t j).Brings r' url' → r.id = r'.id → i = j

section
variable {ι : Type} {cfg : Config} {lib : CronLib} {ρ : Rules} {w w' : World}
  {t : ι → Round} {i : ι} {c : Call} {a : Answer c}

theorem Round.Permits.sparing {s : Round} {id : String} (h : s.Permits cfg lib c)
    (hc : c.brings ≠ some id) : (Writes.sparing id).allows cfg c := by
  cases h with
  | store => exact fun hid => hc (congrArg some hid)
  | send => exact fun hid => hc (congrArg some hid)
  | _ => trivial

/-- A call of a run keeps the places of the jobs in agreement. -/
theorem Outgoing.agrees_call (h : Outgoing cfg w t) (ha : (t i).Permits cfg lib c)
    (hn : StoresUnused w c) (he : ρ.env c w a w') : Agrees cfg w' := by
  have hg := h.agrees
  have haside : ∀ d, c = .dynamo d → (∀ s : Store, (s.run d).2.jobs = s.jobs ∧
      (s.run d).2.due = s.due ∧ (s.run d).2.deadLetters = s.deadLetters) → Agrees cfg w' := by
    rintro d rfl hd
    exact agrees_aside hd hg he
  generalize hs : t i = s at ha
  cases ha with
  | scan => exact haside _ rfl fun _ => ⟨rfl, rfl, rfl⟩
  | begin => exact hg.proc (fun _ _ h => by cases h) he
  | now => exact hg.proc (fun _ _ h => by cases h) he
  | lock =>
    refine haside _ rfl fun s => ?_
    simp only [Store.run]
    split <;> exact ⟨rfl, rfl, rfl⟩
  | check => exact haside _ rfl fun _ => ⟨rfl, rfl, rfl⟩
  | pass => exact hg.proc (fun _ _ h => by cases h) he
  | latest => exact haside _ rfl fun _ => ⟨rfl, rfl, rfl⟩
  | draw => exact hg.proc (fun _ _ h => by cases h) he
  | store hst hh => exact (hg.putJobItem (hn _ rfl).2 hst hh he).1
  | register =>
    refine haside _ rfl fun s => ?_
    simp only [Store.run]
    split <;> exact ⟨rfl, rfl, rfl⟩
  | lookup => exact hg.proc (fun _ _ h => by cases h) he
  | create => exact hg.createQueue he
  | spawn => exact hg.proc (fun _ _ h => by cases h) he
  | cache =>
    have hr := h.ready i _ _ ⟨_, _, hs⟩
    exact hg.proc (fun q u hc => by cases hc; exact hr.url _ rfl) he
  | send =>
    have hr := h.ready i _ _ ⟨_, _, hs⟩
    obtain rfl := hr.url _ rfl
    exact (hg.sendMessage hr.unposted hr.state he).1
  | keep => exact haside _ rfl fun _ => ⟨rfl, rfl, rfl⟩
  | back => exact haside _ rfl fun _ => ⟨rfl, rfl, rfl⟩

theorem Ready.call {r : JobRecord} {url : Option String} (h : Ready cfg r url w)
    (hc : (Writes.sparing r.id).allows cfg c) (he : ρ.env c w a w') : Ready cfg r url w' :=
  ⟨h.unposted.call hc he, h.state, h.handle, h.url⟩

theorem Rules.env_lookupURL {queue : String} {found : Option String}
    (he : ρ.env (.proc (.lookupURL queue)) w found w') : found = w.queueURLs.lookup queue := by
  obtain ⟨ch, -, he⟩ := Rules.env_proc he
  cases ch <;> simp only [World.actProc, reduceCtorEq] at he
  cases he
  rfl

theorem Rules.env_createQueue {name url : String}
    (he : ρ.env (.sqs (.createQueue name)) w (Except.ok url : Except AwsError String) w') :
    url = name := by
  obtain ⟨ch, q', -, hact, -⟩ := Rules.env_sqs he
  cases ch <;> simp only [SqsState.act, reduceCtorEq] at hact <;> cases hact
  rfl

/-- What the run itself is about to send after the call. -/
theorem Outgoing.own (h : Outgoing cfg w t) (ha : (t i).Permits cfg lib c) (hn : StoresUnused w c)
    (he : ρ.env c w a w') {r : JobRecord} {url : Option String}
    (hp : ((t i).next c a).Brings r url) :
    Ready cfg r url w' ∧ ((∃ url, (t i).Brings r url) ∨ c = .dynamo (.putJobItem r)) := by
  have hg := h.agrees
  -- a call that neither stores nor sends
  have hstay : ∀ url, (t i).Brings r url → c.brings = none → Ready cfg r url w' ∧
      ((∃ url, (t i).Brings r url) ∨ c = .dynamo (.putJobItem r)) := fun url hp hc =>
    ⟨(h.ready i r url hp).call (ha.sparing (by rw [hc]; nofun)) he, .inl ⟨url, hp⟩⟩
  obtain ⟨crons, key, hp⟩ := hp
  generalize hs : t i = s at ha hp hstay
  cases ha with
  | scan => cases a <;> cases hp
  | begin => cases hp
  | @now crons turn =>
    rcases turn with _ | ⟨key, turn⟩
    · cases hp
    · cases turn <;> cases hp
      exact hstay _ ⟨_, _, rfl⟩ rfl
  | lock => cases a <;> cases hp
  | check =>
    rcases a with e | found
    · cases hp
    · simp only [Round.next, CronTurn.next] at hp
      split at hp <;> cases hp
  | pass => cases hp
  | latest =>
    rcases a with e | _ | job
    · cases hp
    · cases hp
    · simp only [Round.next, CronTurn.next] at hp
      split at hp <;> cases hp
  | draw => cases hp
  | store hst hh =>
    rcases a with e | u
    · cases hp
    · cases hp
      have hput := (hg.putJobItem (hn _ rfl).2 hst hh he).2 u rfl
      exact ⟨⟨hput, hst, hh, fun _ h => by cases h⟩, .inr rfl⟩
  | register =>
    cases hp
    exact hstay _ ⟨_, _, rfl⟩ rfl
  | lookup =>
    cases hp
    obtain ⟨hr, hposts⟩ := hstay _ ⟨_, _, rfl⟩ rfl
    refine ⟨⟨hr.unposted, hr.state, hr.handle, fun u hu => ?_⟩, hposts⟩
    exact hg.sound.urls _ u ((Rules.env_lookupURL he).symm.trans hu)
  | create =>
    rcases a with e | u
    · cases hp
      exact hstay _ ⟨_, _, rfl⟩ rfl
    · cases hp
      obtain ⟨hr, hposts⟩ := hstay _ ⟨_, _, rfl⟩ rfl
      refine ⟨⟨hr.unposted, hr.state, hr.handle, fun u' hu => ?_⟩, hposts⟩
      exact (Option.some.inj hu).symm.trans (Rules.env_createQueue he)
  | spawn =>
    cases hp
    exact hstay _ ⟨_, _, rfl⟩ rfl
  | cache =>
    cases hp
    exact hstay _ ⟨_, _, rfl⟩ rfl
  | send =>
    rcases a with e | m
    · cases hp
      have hr := h.ready i _ _ ⟨_, _, hs⟩
      obtain rfl := hr.url _ rfl
      have hsame := (hg.sendMessage hr.unposted hr.state he).2 e rfl
      subst hsame
      exact ⟨hr, .inl ⟨_, _, _, rfl⟩⟩
    · cases hp
  | keep => cases a <;> cases hp
  | back => cases hp

theorem Round.Brings.of_now {s : Round} {now : Time} {r : JobRecord} {url : Option String}
    (hp : (s.next (.proc .now) now).Brings r url) : s.Brings r url := by
  obtain ⟨crons, key, hp⟩ := hp
  rcases s with _ | crons | ⟨crons, _ | ⟨key, turn⟩⟩
  · cases hp
  · cases hp
  · cases hp
  · cases turn <;> cases hp
    exact ⟨_, _, rfl⟩

/-- A job that is written is new, or the run is about to send it. -/
theorem Round.Permits.brings {s : Round} {id : String} (h : s.Permits cfg lib c)
    (hc : c.brings = some id) : (∃ r, c = .dynamo (.putJobItem r) ∧ r.id = id) ∨
      ∃ r url, s.Brings r url ∧ r.id = id := by
  cases h with
  | store => exact .inl ⟨_, rfl, Option.some.inj hc⟩
  | send => exact .inr ⟨_, _, ⟨_, _, rfl⟩, Option.some.inj hc⟩
  | _ => cases hc

/-- What the other runs are about to send. -/
theorem Outgoing.other (h : Outgoing cfg w t) (ha : (t i).Permits cfg lib c) (hn : StoresUnused w c)
    (he : ρ.env c w a w') {j : ι} (hji : j ≠ i) {r : JobRecord} {url : Option String}
    (hp : (t j).Brings r url) : Ready cfg r url w' := by
  have hr := h.ready j r url hp
  refine hr.call (ha.sparing fun hc => ?_) he
  rcases ha.brings hc with ⟨r₀, rfl, hid⟩ | ⟨r₀, url₀, hp₀, hid⟩
  · have hnone := (hn r₀ rfl).2
    rw [hid, hr.unposted.stored] at hnone
    cases hnone
  · exact hji (h.apart j i r url r₀ url₀ hp hp₀ hid.symm)

variable [DecidableEq ι]

/-- **A call of a run.** -/
theorem Outgoing.call (h : Outgoing cfg w t) (ha : (t i).Permits cfg lib c) (hn : StoresUnused w c)
    (he : ρ.skewed c w a w') : Outgoing cfg w' (Function.update t i ((t i).next c a)) := by
  have hcall : Agrees cfg w' ∧ (∀ r url, ((t i).next c a).Brings r url → Ready cfg r url w' ∧
      ((∃ url, (t i).Brings r url) ∨ c = .dynamo (.putJobItem r))) ∧
      ∀ j, j ≠ i → ∀ r url, (t j).Brings r url → Ready cfg r url w' := by
    rcases Rules.skewed_cases he with he | ⟨rfl, rfl⟩
    · exact ⟨h.agrees_call ha hn he, fun r url hp => h.own ha hn he hp,
        fun j hj r url hp => h.other ha hn he hj hp⟩
    · refine ⟨h.agrees, fun r url hp => ?_, fun j _ => h.ready j⟩
      exact ⟨h.ready i r url hp.of_now, .inl ⟨url, hp.of_now⟩⟩
  obtain ⟨hg, hown, hother⟩ := hcall
  -- a job that is stored now is no other run's
  have hnew : ∀ j r url r' url', j ≠ i → ((t i).next c a).Brings r url → (t j).Brings r' url' →
      r.id ≠ r'.id := by
    intro j r url r' url' hji hp hp' hid
    rcases (hown r url hp).2 with ⟨url₀, hp₀⟩ | hput
    · exact hji (h.apart j i r' url' r url₀ hp' hp₀ hid.symm)
    · have hnone := (hn r (hput ▸ rfl)).2
      rw [hid, (h.ready j r' url' hp').unposted.stored] at hnone
      cases hnone
  refine ⟨hg, fun j r url hp => ?_, fun j k r url r' url' hp hp' hid => ?_⟩
  · by_cases hj : j = i
    · subst hj
      rw [Function.update_self] at hp
      exact (hown r url hp).1
    · rw [Function.update_of_ne hj] at hp
      exact hother j hj r url hp
  · by_cases hj : j = i
    · by_cases hk : k = i
      · exact hj.trans hk.symm
      · subst hj
        rw [Function.update_self] at hp
        rw [Function.update_of_ne hk] at hp'
        exact absurd hid (hnew k r url r' url' hk hp hp')
    · rw [Function.update_of_ne hj] at hp
      by_cases hk : k = i
      · subst hk
        rw [Function.update_self] at hp'
        exact absurd hid.symm (hnew j r' url' r url hj hp' hp)
      · rw [Function.update_of_ne hk] at hp'
        exact h.apart j k r url r' url' hp hp' hid

omit [DecidableEq ι] in
/-- **An operation on jobs.** -/
theorem Outgoing.tend {l : SystemLabel} (hρ : ρ.faults = false) (h : Outgoing cfg w t)
    (hl : l.tends = true) (hs : SystemStep cfg lib ρ w l w') : Outgoing cfg w' t :=
  ⟨step_agrees hρ h.agrees hs, fun i r url hp =>
    have hr := h.ready i r url hp
    ⟨hr.unposted.step hρ h.agrees hr.state hl hs, hr.state, hr.handle, hr.url⟩, h.apart⟩

end

end OjsSqs
