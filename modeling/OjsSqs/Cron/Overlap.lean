import OjsSqs.Cron.Exclusive

/-! # The overlap check

A cron with the policy `skip` keeps the identifier of its latest job. The check
reads it in the turn of the cron, and it is written in the same turn, after the
job has been sent. Whatever happens to the jobs meanwhile, a job that is not in
a terminal state is the one the turn knows of, or the instance. -/
namespace OjsSqs
open Calls

/-! ## Jobs that have ended -/

/-- The job is stored, and not in a terminal state. -/
def Live (id : String) (w : World) : Prop :=
  ∃ r, w.store.jobs.lookup id = some r ∧ isTerminalState r.state = false

/-- The job is stored, and it has not been cancelled. -/
def Uncancelled (id : String) (w : World) : Prop :=
  ∃ r, w.store.jobs.lookup id = some r ∧ r.state ≠ .cancelled

section
variable {cfg : Config} {lib : CronLib} {ρ : Rules} {w w' : World} {id : String}

/-- A job that nobody cancels is not revived either. -/
theorem step_ends {l : SystemLabel} (hρ : ρ.faults = false) (hg : Agrees cfg w)
    (hl : l.tends = true) (hs : SystemStep cfg lib ρ w l w') (h : Uncancelled id w) :
    Uncancelled id w' ∧ (Live id w' → Live id w) := by
  obtain ⟨r, hr, hne⟩ := h
  obtain ⟨r', hr', hshift⟩ := step_shifts hρ hg hs id r hr
  have hlive : ∀ P : Prop, (Live id w' → P) ↔ (isTerminalState r'.state = false → P) := by
    intro P
    refine ⟨fun h ht => h ⟨r', hr', ht⟩, fun h hx => ?_⟩
    obtain ⟨x, hx, ht⟩ := hx
    rw [hr'] at hx
    cases hx
    exact h ht
  rw [hlive]
  have hkeep : r'.state ≠ .cancelled ∧
      (isTerminalState r'.state = false → isTerminalState r.state = false) := by
    rcases hshift with hsame | hmove
    · rw [hsame]
      exact ⟨hne, fun h => h⟩
    · split at hmove
      · rename_i o a
        rcases hmove with hedge | ⟨-, hc, -⟩
        · generalize r'.state = s at hedge
          cases hedge with
          | due h => cases hl
          | cancel h => cases hl
          | replace h => cases hl
          | revive h => cases hl
          | retry h => simp [h, isTerminalState]
          | fetch h => rcases h with h | h <;> simp [h, isTerminalState]
          | expire h => rcases h with h | h <;> simp [h, isTerminalState]
          | complete h => simp [h, isTerminalState]
          | fail h => simp [h, isTerminalState]
          | discard h => simp [h, isTerminalState]
          | requeue h => simp [h, isTerminalState]
        · exact absurd hc hne
      · cases hl
      · exact hmove.elim
  exact ⟨⟨r', hr', hkeep.1⟩, fun ht => ⟨r, hr, hkeep.2 ht⟩⟩

theorem Uncancelled.isSome (h : Uncancelled id w) : (w.store.jobs.lookup id).isSome := by
  obtain ⟨r, hr, -⟩ := h
  rw [hr]
  rfl

theorem Uncancelled.congr (h : Uncancelled id w)
    (hsame : w'.store.jobs.lookup id = w.store.jobs.lookup id) : Uncancelled id w' := by
  obtain ⟨r, hr, hne⟩ := h
  exact ⟨r, hsame.trans hr, hne⟩

theorem Live.congr (h : Live id w')
    (hsame : w'.store.jobs.lookup id = w.store.jobs.lookup id) : Live id w := by
  obtain ⟨r, hr, ht⟩ := h
  exact ⟨r, hsame.symm.trans hr, ht⟩

end

/-! ## The jobs of a cron -/

/-- What an observer writes down: the cron whose lock each run has acquired
last, and the jobs stored for each cron, by a run that had its lock. -/
structure Births (ι : Type) where
  lock : ι → Option String
  created : String → List String

namespace Births

variable {ι : Type}

def empty : Births ι := ⟨fun _ => none, fun _ => []⟩

/-- One more job of a cron. -/
def bear (b : Births ι) (id : String) : Option String → Births ι
  | some name => { b with created := Function.update b.created name (id :: b.created name) }
  | none => b

@[simp] theorem bear_lock (b : Births ι) (id : String) (name : Option String) :
    (b.bear id name).lock = b.lock := by cases name <;> rfl

/-- The jobs of a cron that are stored and not in a terminal state. -/
def live (b : Births ι) (name : String) (w : World) : Set String :=
  { id | id ∈ b.created name ∧ Live id w }

variable [DecidableEq ι]

def hold (b : Births ι) (i : ι) (name : Option String) : Births ι :=
  { b with lock := Function.update b.lock i name }

def note (b : Births ι) : Event ι Call Answer → Births ι
  | ⟨i, .dynamo (.putCronLockItem name _ _), .ok _⟩ => b.hold i (some name)
  | ⟨i, .dynamo (.putCronLockItem _ _ _), .error _⟩ => b.hold i none
  | ⟨i, .dynamo (.putJobItem r), .ok _⟩ => b.bear r.id (b.lock i)
  | _ => b

variable {i : ι} {c : Call} {a : Answer c}

theorem note_created (b : Births ι) (hc : ∀ r, c ≠ .dynamo (.putJobItem r)) :
    (b.note ⟨i, c, a⟩).created = b.created := by
  cases c with
  | dynamo d =>
    cases d with
    | putJobItem r => exact absurd rfl (hc r)
    | putCronLockItem n ts ttl => cases a <;> rfl
    | _ => rfl
  | sqs c => rfl
  | proc c => rfl

theorem note_lock (b : Births ι) (hc : ∀ n ts ttl, c ≠ .dynamo (.putCronLockItem n ts ttl)) :
    (b.note ⟨i, c, a⟩).lock = b.lock := by
  cases c with
  | dynamo d =>
    cases d with
    | putCronLockItem n ts ttl => exact absurd rfl (hc n ts ttl)
    | putJobItem r =>
      cases a with
      | error e => rfl
      | ok u => exact bear_lock b r.id (b.lock i)
    | _ => rfl
  | sqs c => rfl
  | proc c => rfl

end Births

/-! ## What a turn knows -/

/-- The latest instance of a cron. -/
def World.instanceOf (w : World) (name : String) : Option String :=
  w.store.cronInstances.lookup name

/-- What a run knows in the turn of a cron: which of the cron's jobs may still
be live, when the latest instance is `latest`. -/
def CronTurn.Knows (live : Set String) (latest : Option String) : CronTurn → Prop
  | .checking | .closing => ∀ id ∈ live, latest = some id
  | .found jobID => latest = some jobID ∧ ∀ id ∈ live, id = jobID
  | .clear => ∀ id, id ∉ live
  | .stored record _ => ∀ id ∈ live, id = record.id
  | .sent jobID => ∀ id ∈ live, id = jobID

/-- Fewer jobs are live. -/
theorem CronTurn.Knows.anti {live live' : Set String} {latest : Option String} {turn : CronTurn}
    (h : turn.Knows live latest) (hsub : live' ⊆ live) : turn.Knows live' latest := by
  cases turn with
  | checking => exact fun id hid => h id (hsub hid)
  | closing => exact fun id hid => h id (hsub hid)
  | found jobID => exact ⟨h.1, fun id hid => h.2 id (hsub hid)⟩
  | clear => exact fun id hid => h id (hsub hid)
  | stored record url => exact fun id hid => h id (hsub hid)
  | sent jobID => exact fun id hid => h id (hsub hid)

theorem CronTurn.Knows.one {live : Set String} {latest : Option String} {turn : CronTurn}
    (h : turn.Knows live latest) : live.Subsingleton := by
  intro id hid id' hid'
  cases turn with
  | checking => exact Option.some.inj ((h id hid).symm.trans (h id' hid'))
  | closing => exact Option.some.inj ((h id hid).symm.trans (h id' hid'))
  | found jobID => exact (h.2 id hid).trans (h.2 id' hid').symm
  | clear => exact absurd hid (h id)
  | stored record url => exact (h id hid).trans (h id' hid').symm
  | sent jobID => exact (h id hid).trans (h id' hid').symm

section
variable {cfg : Config} {lib : CronLib} {ρ : Rules} {w w' : World} {c : Call} {a : Answer c}
  {name : String} {s : Round}

/-! ### What the calls read and write -/

/-- A call that stores a new job leaves the stored ones alone. -/
theorem Round.Permits.job {id : String} (ha : s.Permits cfg lib c) (hn : StoresUnused w c)
    (hid : (w.store.jobs.lookup id).isSome) (he : ρ.skewed c w a w') :
    w'.store.jobs.lookup id = w.store.jobs.lookup id := by
  have hc : c.writesJob ≠ some id := by
    intro hc
    cases ha with
    | @store crons key r =>
      have hnone := (hn r rfl).2
      obtain rfl : r.id = id := Option.some.inj hc
      rw [hnone] at hid
      cases hid
    | _ => cases hc
  rcases Rules.skewed_cases he with he | ⟨-, rfl⟩
  · exact Rules.env_job hc he
  · rfl

/-- What a request that succeeds answers. -/
theorem Rules.skewed_run {d : DynamoCall} {x : d.Answer} (hd : d.isPaged = false)
    (he : ρ.skewed (.dynamo d) w (Except.ok x : Except AwsError d.Answer) w') :
    (.ok x, w'.store) = w.store.run d := by
  rcases Rules.skewed_cases he with he | ⟨hc, -⟩
  · exact Rules.env_ok hd he
  · cases hc

theorem Rules.skewed_latest {latest : Option String}
    (he : ρ.skewed (.dynamo (.getCronInstanceItem name)) w
      (Except.ok latest : Except AwsError (Option String)) w') : latest = w.instanceOf name := by
  have hrun := Rules.skewed_run rfl he
  simp only [Store.run] at hrun
  exact Except.ok.inj (Prod.mk.inj hrun).1

theorem Rules.skewed_job {id : String} {job : Option JobRecord}
    (he : ρ.skewed (.dynamo (.getJobItem id)) w
      (Except.ok job : Except AwsError (Option JobRecord)) w') : job = w.store.jobs.lookup id := by
  have hrun := Rules.skewed_run rfl he
  simp only [Store.run] at hrun
  exact Except.ok.inj (Prod.mk.inj hrun).1

theorem Rules.skewed_keep {jobID : String} {u : Unit}
    (he : ρ.skewed (.dynamo (.putCronInstanceItem name jobID)) w
      (Except.ok u : Except AwsError Unit) w') : w'.instanceOf name = some jobID := by
  have hrun := Rules.skewed_run rfl he
  simp only [Store.run] at hrun
  rw [World.instanceOf, (Prod.mk.inj hrun).2]
  exact AList.lookup_insert _

theorem Rules.skewed_instance (hc : ∀ jobID, c ≠ .dynamo (.putCronInstanceItem name jobID))
    (he : ρ.skewed c w a w') : w'.instanceOf name = w.instanceOf name := by
  refine Rules.skewed_frame (fun s => s.cronInstances.lookup name) (fun d hd => ?_) he
  subst hd
  cases d <;> simp only [Store.run] <;> (try split) <;>
    first
    | rfl
    | exact AList.lookup_insert_ne fun hn => hc _ (by rw [hn])

/-! ### Where a run stands after a call -/

theorem Round.next_turn {crons : List CronRecord} {key : String × Int} {turn : CronTurn}
    (hc : ∀ n ts ttl, c ≠ .dynamo (.putCronLockItem n ts ttl)) :
    (Round.going crons (some (key, turn))).next c a =
      .going crons ((turn.next c a).map (key, ·)) := by
  cases c with
  | dynamo d =>
    cases d with
    | putCronLockItem n ts ttl => exact absurd rfl (hc n ts ttl)
    | _ => rfl
  | sqs c => rfl
  | proc c => rfl

/-- Without a lock the run stays in the turn it is in. -/
theorem Round.turn_of_next {crons : List CronRecord} {key : String × Int} {turn' : CronTurn}
    (hc : ∀ n ts ttl, c ≠ .dynamo (.putCronLockItem n ts ttl))
    (h : s.next c a = .going crons (some (key, turn'))) :
    ∃ turn, s = .going crons (some (key, turn)) ∧ turn.next c a = some turn' := by
  unfold Round.next at h
  split at h
  · cases h
  · cases h
  · exact absurd rfl (hc _ _ _)
  · cases h
  · rename_i crons₀ key₀ turn _ _
    obtain ⟨rfl, hmap⟩ := Round.going.inj h
    obtain ⟨x, hx, hpair⟩ := Option.map_eq_some_iff.mp hmap
    cases hpair
    exact ⟨turn, rfl, hx⟩
  · rename_i hno _ _ _ _
    exact absurd h (hno crons key turn')

/-- A turn ends when the cron is written back. -/
theorem CronTurn.next_none {turn : CronTurn} (h : turn.next c a = none) :
    turn = .closing ∧ ∃ r, c = .dynamo (.putCronItem r) := by
  unfold CronTurn.next at h
  split at h <;> first | (cases h; done) | exact ⟨rfl, _, rfl⟩

end

/-! ## The invariant -/

/-- At most one job of the cron is live. Who is at the cron's turn knows which;
when nobody is, it is the latest instance, or the cron is not run again. -/
structure KeepsOne (cfg : Config) (lib : CronLib) (name : String) (record : CronRecord)
    (b : Births ι) (w : World) (t : ι → Round) : Prop where
  outgoing : Outgoing cfg w t
  exclusive : Exclusive cfg lib name record w t
  locked : ∀ i crons key turn, t i = .going crons (some (key, turn)) → b.lock i = some key.1
  born : ∀ id ∈ b.created name, id ≠ "" ∧ Uncancelled id w
  knows : ∀ i turn, (t i).Stands name turn → turn.Knows (b.live name w) (w.instanceOf name)
  quiet : (∀ i turn, ¬ (t i).Stands name turn) →
    (∀ id ∈ b.live name w, w.instanceOf name = some id) ∨
      Spent cfg lib name record w ∧ (b.live name w).Subsingleton

section
variable {ι : Type} {cfg : Config} {lib : CronLib} {ρ : Rules} {name : String}
  {record : CronRecord} {b : Births ι} {w w' : World} {t : ι → Round} {i : ι} {c : Call}
  {a : Answer c}

theorem KeepsOne.one (h : KeepsOne cfg lib name record b w t) : (b.live name w).Subsingleton := by
  by_cases hat : ∃ i turn, (t i).Stands name turn
  · obtain ⟨i, turn, hat⟩ := hat
    exact (h.knows i turn hat).one
  · rcases h.quiet fun i turn hi => hat ⟨i, turn, hi⟩ with hall | ⟨-, hone⟩
    · exact fun id hid id' hid' => Option.some.inj ((hall id hid).symm.trans (hall id' hid'))
    · exact hone

/-- **An operation on jobs.** -/
theorem KeepsOne.tend {l : SystemLabel} (hρ : ρ.faults = false)
    (h : KeepsOne cfg lib name record b w t) (hl : l.tends = true)
    (hs : SystemStep cfg lib ρ w l w') : KeepsOne cfg lib name record b w' t := by
  have hsame := step_cronTables hl hs
  have hends : ∀ id ∈ b.created name, Uncancelled id w' ∧ (Live id w' → Live id w) :=
    fun id hid => step_ends hρ h.outgoing.agrees hl hs (h.born id hid).2
  have hsub : b.live name w' ⊆ b.live name w := fun id hid => ⟨hid.1, (hends id hid.1).2 hid.2⟩
  have hlatest : w'.instanceOf name = w.instanceOf name := by
    have h3 := (Prod.mk.inj (Prod.mk.inj hsame).2).2
    rw [World.instanceOf, World.instanceOf, h3]
  refine ⟨h.outgoing.tend hρ hl hs, h.exclusive.aside hsame, h.locked,
    fun id hid => ⟨(h.born id hid).1, (hends id hid).1⟩, fun i turn hi => ?_, fun hno => ?_⟩
  · rw [hlatest]
    exact (h.knows i turn hi).anti hsub
  · rcases h.quiet hno with hall | ⟨hspent, hone⟩
    · refine .inl fun id hid => ?_
      rw [hlatest]
      exact hall id (hsub hid)
    · refine .inr ⟨hspent.mono fun key hk => ?_, hone.anti hsub⟩
      have h2 : w'.store.cronLocks = w.store.cronLocks := (Prod.mk.inj (Prod.mk.inj hsame).2).1
      rw [h2]
      exact hk

/-! ### A call of a run -/

/-- No job of the cron becomes live. -/
theorem KeepsOne.fewer (h : KeepsOne cfg lib name record b w t) (b' : Births ι)
    (ha : (t i).Permits cfg lib c) (hn : StoresUnused w c) (he : ρ.skewed c w a w')
    (hb : b'.created name = b.created name) :
    b'.live name w' ⊆ b.live name w := by
  rintro id ⟨hid, hlive⟩
  rw [hb] at hid
  exact ⟨hid, hlive.congr (ha.job hn (h.born id hid).2.isSome he)⟩

/-- The lock of the cron is free only for the record as it is stored. -/
theorem KeepsOne.free (h : KeepsOne cfg lib name record b w t) {n : String} {ts ttl : Int}
    {a : Answer (.dynamo (.putCronLockItem n ts ttl))}
    (ha : (t i).Permits cfg lib (.dynamo (.putCronLockItem n ts ttl)))
    (he : ρ.skewed (.dynamo (.putCronLockItem n ts ttl)) w a w') {turn : CronTurn}
    (hat : ((t i).next (.dynamo (.putCronLockItem n ts ttl)) a).Stands name turn) :
    turn = .checking ∧ ¬ Spent cfg lib name record w := by
  have hfree : ∀ ts, LocksListed cfg lib (t i).crons name ts →
      w.store.cronLocks.lookup (name, ts) = none → ¬ Spent cfg lib name record w :=
    fun ts hl hfree => (h.exclusive.free hl hfree).2
  obtain ⟨crons, ts', hs'⟩ := hat
  generalize t i = s at ha hs' hfree
  cases ha with
  | lock hlisted =>
    rcases a with e | u
    · cases hs'
    · cases hs'
      exact ⟨rfl, hfree ts hlisted (Rules.skewed_acquire he).1⟩

variable [DecidableEq ι]

/-- What a run does in the turn of another cron. -/
theorem KeepsOne.elsewhere (h : KeepsOne cfg lib name record b w t) (ha : (t i).Permits cfg lib c)
    (hn : StoresUnused w c) (he : ρ.skewed c w a w') (hno : ∀ turn, ¬ (t i).Stands name turn) :
    (b.note ⟨i, c, a⟩).live name w' ⊆ b.live name w ∧ w'.instanceOf name = w.instanceOf name := by
  have hother : ∀ crons key turn, t i = .going crons (some (key, turn)) → key.1 ≠ name := by
    rintro crons key turn hi rfl
    exact hno turn ⟨crons, key.2, hi⟩
  constructor
  · refine h.fewer _ ha hn he ?_
    by_cases hput : ∃ r, c = .dynamo (.putJobItem r)
    · obtain ⟨r, rfl⟩ := hput
      rcases a with e | u
      · rfl
      · generalize hs : t i = s at ha
        cases ha with
        | @store crons key r =>
          simp only [Births.note, h.locked i _ _ _ hs, Births.bear]
          exact Function.update_of_ne (hother _ _ _ hs).symm _ _
    · exact congrFun (b.note_created fun r hr => hput ⟨r, hr⟩) name
  · refine Rules.skewed_instance (fun jobID hc => ?_) he
    subst hc
    generalize hs : t i = s at ha
    cases ha with
    | keep => exact hother _ _ _ hs rfl

/-- What a run does in its turn of the cron. -/
theorem KeepsOne.own (h : KeepsOne cfg lib name record b w t) (ha : (t i).Permits cfg lib c)
    (hn : StoresUnused w c) (he : ρ.skewed c w a w') {crons : List CronRecord} {key : String × Int}
    {turn turn' : CronTurn} (hi : t i = .going crons (some (key, turn))) (hkey : key.1 = name)
    (hc : ∀ n ts ttl, c ≠ .dynamo (.putCronLockItem n ts ttl))
    (hnext : turn.next c a = some turn') :
    turn'.Knows ((b.note ⟨i, c, a⟩).live name w') (w'.instanceOf name) := by
  subst hkey
  have hk := h.knows i turn ⟨crons, key.2, hi⟩
  have hborn := h.born
  have hlock := h.locked i _ _ _ hi
  have hlisted := h.exclusive.listed i
  have hfewer := fun b' => h.fewer b' ha hn he
  have hinst : (∀ jobID, c ≠ .dynamo (.putCronInstanceItem key.1 jobID)) →
      w'.instanceOf key.1 = w.instanceOf key.1 := fun hc => Rules.skewed_instance hc he
  rw [hi] at ha hlisted
  -- a call after which the turn knows what it knew
  have hsame : (∀ live latest, turn.Knows live latest → turn'.Knows live latest) →
      c.writesJob = none → c.sparesCrons = true →
      turn'.Knows ((b.note ⟨i, c, a⟩).live key.1 w') (w'.instanceOf key.1) := by
    intro hto hjob hspares
    rw [hinst fun jobID hc => by rw [hc] at hspares; cases hspares]
    refine hto _ _ (hk.anti (hfewer _ (congrFun (b.note_created fun r hc => ?_) key.1)))
    rw [hc] at hjob
    cases hjob
  cases ha with
  | now =>
    cases turn <;> cases hnext <;> exact hsame (fun _ _ h => h) rfl rfl
  | lock => exact absurd rfl (hc _ _ _)
  | check =>
    rcases a with e | latest
    · cases hnext
      exact hsame (fun _ _ h => h) rfl rfl
    · have hread : latest = w.instanceOf key.1 := Rules.skewed_latest he
      have hsub := hfewer b rfl
      rw [hinst (fun _ h => by cases h), ← hread]
      rw [← hread] at hk
      simp only [CronTurn.next] at hnext
      split at hnext
      · rename_i hempty
        cases hnext
        intro id hid
        have hlatest := hk id (hsub hid)
        rw [hlatest] at hempty
        exact (hborn id hid.1).1 hempty
      · rename_i hne
        cases hnext
        cases latest with
        | none => exact absurd rfl hne
        | some jobID =>
          exact ⟨rfl, fun id hid => (Option.some.inj (hk id (hsub hid))).symm⟩
  | @pass _ _ cron hmem hname hpolicy => exact absurd (hlisted cron hmem hname).1 hpolicy
  | @latest _ _ jobID =>
    rcases a with e | _ | job
    · cases hnext
      exact hsame (fun _ _ h id hid => (h.2 id hid) ▸ h.1) rfl rfl
    · cases hnext
      exact hsame (fun _ _ h id hid => (h.2 id hid) ▸ h.1) rfl rfl
    · have hread : some job = w.store.jobs.lookup jobID := Rules.skewed_job he
      have hsub := hfewer b rfl
      simp only [CronTurn.next] at hnext
      split at hnext
      · rename_i hterm
        cases hnext
        intro id hid
        obtain ⟨r, hr, hlive⟩ := (hsub hid).2
        rw [hk.2 id (hsub hid), ← hread] at hr
        cases hr
        rw [hterm] at hlive
        cases hlive
      · cases hnext
        exact hsame (fun _ _ h id hid => (h.2 id hid) ▸ h.1) rfl rfl
  | @store _ _ r =>
    rcases a with e | u
    · cases hnext
      exact fun id hid => hk id (hfewer b rfl hid)
    · cases hnext
      rintro id ⟨hid, hlive⟩
      have hcreated : (b.note ⟨i, .dynamo (.putJobItem r), .ok u⟩).created key.1 =
          r.id :: b.created key.1 := by
        simp only [Births.note, hlock, Births.bear, Function.update_self]
      rw [hcreated] at hid
      rcases List.mem_cons.mp hid with rfl | hid
      · rfl
      · exact absurd (hfewer b rfl ⟨hid, hlive⟩) (hk id)
  | create =>
    rcases a with e | u <;> cases hnext <;> exact hsame (fun _ _ h => h) rfl rfl
  | send =>
    rcases a with e | m <;> cases hnext <;> exact hsame (fun _ _ h => h) rfl rfl
  | @keep _ _ jobID =>
    have hsub := hfewer b rfl
    rcases a with e | u
    · cases hnext
      exact fun id hid => hk id (hsub hid)
    · cases hnext
      have hput : w'.instanceOf key.1 = some jobID := Rules.skewed_keep he
      exact fun id hid => hput.trans (congrArg some (hk id (hsub hid)).symm)
  | back => cases hnext
  | _ =>
    cases hnext
    exact hsame (fun _ _ h => h) rfl rfl

/-- A run that is at a turn has acquired its lock. -/
theorem KeepsOne.held (h : KeepsOne cfg lib name record b w t) (ha : (t i).Permits cfg lib c) :
    ∀ j crons key turn,
      Function.update t i ((t i).next c a) j = .going crons (some (key, turn)) →
        (b.note ⟨i, c, a⟩).lock j = some key.1 := by
  intro j crons key turn hj
  by_cases hc : ∃ n ts ttl, c = .dynamo (.putCronLockItem n ts ttl)
  · obtain ⟨n, ts, ttl, rfl⟩ := hc
    by_cases hji : j = i
    · subst hji
      rw [Function.update_self] at hj
      generalize hs : t j = s at ha hj
      cases ha with
      | lock =>
        rcases a with e | u
        · cases hj
        · cases hj
          exact Function.update_self _ _ _
    · rw [Function.update_of_ne hji] at hj
      rw [← h.locked j crons key turn hj]
      rcases a with e | u <;> exact Function.update_of_ne hji _ _
  · have hc : ∀ n ts ttl, c ≠ .dynamo (.putCronLockItem n ts ttl) :=
      fun n ts ttl he => hc ⟨n, ts, ttl, he⟩
    rw [b.note_lock hc]
    by_cases hji : j = i
    · subst hji
      rw [Function.update_self] at hj
      obtain ⟨turn₀, hs, -⟩ := Round.turn_of_next hc hj
      exact h.locked j crons key turn₀ hs
    · rw [Function.update_of_ne hji] at hj
      exact h.locked j crons key turn hj

/-- What is left when a run leaves the turn of the cron. -/
theorem KeepsOne.leave (h : KeepsOne cfg lib name record b w t) (ha : (t i).Permits cfg lib c)
    (hn : StoresUnused w c) (he : ρ.skewed c w a w') {turn : CronTurn} (hi : (t i).Stands name turn)
    (hleft : ∀ turn, ¬ ((t i).next c a).Stands name turn) :
    (∀ id ∈ (b.note ⟨i, c, a⟩).live name w', w'.instanceOf name = some id) ∨
      ¬ (t i).Stands name .closing ∧ Spent cfg lib name record w' ∧
        ((b.note ⟨i, c, a⟩).live name w').Subsingleton := by
  have hk := h.knows i turn hi
  have hover : turn = .closing → (b.note ⟨i, c, a⟩).live name w' ⊆ b.live name w →
      w'.instanceOf name = w.instanceOf name →
      ∀ id ∈ (b.note ⟨i, c, a⟩).live name w', w'.instanceOf name = some id := by
    rintro rfl hsub hlatest id hid
    rw [hlatest]
    exact hk id (hsub hid)
  have hfewer := h.fewer (b.note ⟨i, c, a⟩) ha hn he
  by_cases hc : ∃ n ts ttl, c = .dynamo (.putCronLockItem n ts ttl)
  · obtain ⟨n, ts, ttl, rfl⟩ := hc
    have hsub := hfewer (congrFun (b.note_created fun r hr => by cases hr) name)
    by_cases hturn : turn = .closing
    · refine .inl (hover hturn hsub (Rules.skewed_instance (fun jobID hc => by cases hc) he))
    · refine .inr ⟨fun hat => hturn ?_, (h.exclusive.locked i turn hi).mono fun _ =>
        Rules.skewed_locks he, h.one.anti hsub⟩
      obtain ⟨crons, ts, hs⟩ := hi
      obtain ⟨crons', ts', hs'⟩ := hat
      rw [hs] at hs'
      cases hs'
      rfl
  · have hc : ∀ n ts ttl, c ≠ .dynamo (.putCronLockItem n ts ttl) :=
      fun n ts ttl he => hc ⟨n, ts, ttl, he⟩
    obtain ⟨crons, ts, hs⟩ := hi
    have hnone : turn.next c a = none := by
      by_contra hsome
      obtain ⟨turn', hnext⟩ := Option.ne_none_iff_exists'.mp hsome
      refine hleft turn' ⟨crons, ts, ?_⟩
      rw [hs, Round.next_turn hc, hnext]
      rfl
    obtain ⟨hturn, r, rfl⟩ := CronTurn.next_none hnone
    exact .inl (hover hturn (hfewer rfl) (Rules.skewed_instance (fun jobID hc => by cases hc) he))

/-- What a run knows that gets the lock of the cron. -/
theorem KeepsOne.acquire (h : KeepsOne cfg lib name record b w t) (ha : (t i).Permits cfg lib c)
    (hn : StoresUnused w c) (he : ρ.skewed c w a w') (hno : ∀ turn, ¬ (t i).Stands name turn)
    {turn : CronTurn} (hat : ((t i).next c a).Stands name turn) :
    turn.Knows ((b.note ⟨i, c, a⟩).live name w') (w'.instanceOf name) := by
  obtain ⟨hsub, hlatest⟩ := h.elsewhere ha hn he hno
  by_cases hc : ∃ n ts ttl, c = .dynamo (.putCronLockItem n ts ttl)
  · obtain ⟨n, ts, ttl, rfl⟩ := hc
    obtain ⟨rfl, hnot⟩ := h.free ha he hat
    rcases h.quiet fun j turn hj => hnot (h.exclusive.locked j turn hj) with hall | ⟨hspent, -⟩
    · intro id hid
      rw [hlatest]
      exact hall id (hsub hid)
    · exact absurd hspent hnot
  · obtain ⟨crons, ts, hs'⟩ := hat
    obtain ⟨turn₀, hs, -⟩ := Round.turn_of_next (fun n ts ttl he => hc ⟨n, ts, ttl, he⟩) hs'
    exact absurd ⟨crons, ts, hs⟩ (hno turn₀)

/-- The jobs that are stored for the cron. -/
theorem KeepsOne.bears (h : KeepsOne cfg lib name record b w t) (ha : (t i).Permits cfg lib c)
    (hn : StoresUnused w c) (he : ρ.skewed c w a w') :
    ∀ id ∈ (b.note ⟨i, c, a⟩).created name, id ≠ "" ∧ Uncancelled id w' := by
  have hold : ∀ id ∈ b.created name, id ≠ "" ∧ Uncancelled id w' := fun id hid =>
    ⟨(h.born id hid).1, (h.born id hid).2.congr (ha.job hn (h.born id hid).2.isSome he)⟩
  intro id hid
  by_cases hput : ∃ r, c = .dynamo (.putJobItem r)
  · obtain ⟨r, rfl⟩ := hput
    rcases a with e | u
    · exact hold id hid
    · have hnew : r.id ≠ "" ∧ Uncancelled r.id w' := by
        refine ⟨(hn r rfl).1, r, ?_, ?_⟩
        · have hrun := Rules.skewed_run rfl he
          simp only [Store.run] at hrun
          rw [(Prod.mk.inj hrun).2]
          exact AList.lookup_insert _
        · generalize t i = s at ha
          cases ha with
          | store hst =>
            rw [hst]
            exact fun hcancelled => by cases hcancelled
      cases hlock : b.lock i with
      | none =>
        rw [Births.note, hlock] at hid
        exact hold id hid
      | some n =>
        simp only [Births.note, hlock, Births.bear] at hid
        by_cases hname : name = n
        · subst hname
          rw [Function.update_self] at hid
          rcases List.mem_cons.mp hid with rfl | hid
          · exact hnew
          · exact hold id hid
        · rw [Function.update_of_ne hname] at hid
          exact hold id hid
  · rw [b.note_created fun r hr => hput ⟨r, hr⟩] at hid
    exact hold id hid

/-- **A call of a run.** -/
theorem KeepsOne.call (h : KeepsOne cfg lib name record b w t) (ha : (t i).Permits cfg lib c)
    (hn : StoresUnused w c) (he : ρ.skewed c w a w') : ∃ record',
      KeepsOne cfg lib name record' (b.note ⟨i, c, a⟩) w'
        (Function.update t i ((t i).next c a)) := by
  obtain ⟨record', hexclusive, hrecord⟩ := h.exclusive.call ha he
  refine ⟨record', h.outgoing.call ha hn he, hexclusive, h.held ha, h.bears ha hn he,
    fun j turn hj => ?_, fun hno => ?_⟩
  · by_cases hji : j = i
    · subst hji
      rw [Function.update_self] at hj
      by_cases hat : ∃ turn, (t j).Stands name turn
      · obtain ⟨turn₀, hat⟩ := hat
        have hc : ∀ n ts ttl, c ≠ .dynamo (.putCronLockItem n ts ttl) := by
          rintro n ts ttl rfl
          exact (h.free ha he hj).2 (h.exclusive.locked j turn₀ hat)
        obtain ⟨crons, ts, hs⟩ := hj
        obtain ⟨turn₁, hs₁, hnext⟩ := Round.turn_of_next hc hs
        exact h.own ha hn he hs₁ rfl hc hnext
      · exact h.acquire ha hn he (fun turn₀ h₀ => hat ⟨turn₀, h₀⟩) hj
    · rw [Function.update_of_ne hji] at hj
      obtain ⟨hsub, hlatest⟩ := h.elsewhere ha hn he fun turn₀ hi =>
        hji (h.exclusive.alone j i turn turn₀ hj hi)
      rw [hlatest]
      exact (h.knows j turn hj).anti hsub
  · have hleft : ∀ turn, ¬ ((t i).next c a).Stands name turn := fun turn hat =>
      hno i turn (by rwa [Function.update_self])
    by_cases hat : ∃ turn, (t i).Stands name turn
    · obtain ⟨turn, hat⟩ := hat
      rcases h.leave ha hn he hat hleft with hall | ⟨hover, hspent, hone⟩
      · exact .inl hall
      · rcases hrecord with rfl | ⟨hat', -⟩
        · exact .inr ⟨hspent, hone⟩
        · exact absurd hat' hover
    · have hni : ∀ turn, ¬ (t i).Stands name turn := fun turn hi => hat ⟨turn, hi⟩
      have hsame : record' = record := by
        rcases hrecord with h | ⟨h, -⟩
        · exact h
        · exact absurd h (hni _)
      subst hsame
      obtain ⟨hsub, hlatest⟩ := h.elsewhere ha hn he hni
      have hnone : ∀ j turn, ¬ (t j).Stands name turn := by
        intro j turn hj
        by_cases hji : j = i
        · exact hni turn (hji ▸ hj)
        · exact hno j turn (by rwa [Function.update_of_ne hji])
      rw [hlatest]
      rcases h.quiet hnone with hall | ⟨hspent, hone⟩
      · exact .inl fun id hid => hall id (hsub hid)
      · exact .inr ⟨hspent.mono fun _ => Rules.skewed_locks he, hone.anti hsub⟩

end
end OjsSqs
