import OjsSqs.Cron.Processes

/-! # One job for each run of a cron

The processes share nothing but the store, their clocks may disagree, and the
records they work from were listed earlier. That no run of a cron is pushed
twice rests on the lock alone: a job is stored only under a lock, at most once,
and a lock is put at most once. -/
namespace OjsSqs
open Calls

/-- What an observer writes down: the crons each process has listed, the lock
each has acquired last, and how many jobs were stored for each run of a cron,
its name with the instant of its stored `next_run_at`. -/
structure Book (ι : Type) where
  listed : ι → List CronRecord
  lock : ι → Option (String × Int)
  pushed : Option (String × Time) → Nat

variable {ι : Type} [DecidableEq ι]

namespace Book

def empty : Book ι := ⟨fun _ => [], fun _ => none, fun _ => 0⟩

section
variable (cfg : Config) (lib : CronLib)

/-- The run of a listed cron that a lock stands for. -/
def runIn (crons : List CronRecord) (key : String × Int) : Option (String × Time) :=
  crons.findSome? fun cron =>
    if cron.name = key.1 then
      ((nextRunOf cfg lib cron.nextRunAt).filter fun t => t.unix = key.2).map fun t => (key.1, t)
    else none

/-- The run a process works on. -/
def runOf (b : Book ι) (i : ι) : Option (String × Time) := (b.lock i).bind (runIn cfg lib (b.listed i))

/-- The crons a process has listed. -/
def list (b : Book ι) (i : ι) (crons : List CronRecord) : Book ι :=
  { b with listed := Function.update b.listed i crons }

/-- The lock a process has acquired, or not. -/
def hold (b : Book ι) (i : ι) (lock : Option (String × Int)) : Book ι :=
  { b with lock := Function.update b.lock i lock }

/-- One more job for a run. -/
def count (b : Book ι) (run : Option (String × Time)) : Book ι :=
  { b with pushed := Function.update b.pushed run (b.pushed run + 1) }

def note (b : Book ι) : Event ι Call Answer → Book ι
  | ⟨i, .dynamo .scanCrons, .ok crons⟩ => b.list i crons
  | ⟨i, .dynamo (.putCronLockItem name ts _), .ok _⟩ => b.hold i (some (name, ts))
  | ⟨i, .dynamo (.putCronLockItem _ _ _), .error _⟩ => b.hold i none
  | ⟨i, .dynamo (.putJobItem _), _⟩ => b.count (b.runOf cfg lib i)
  | _ => b

/-- The book after a run of the pool. -/
def of (tr : List (Event ι Call Answer)) : Book ι := tr.foldl (note cfg lib) empty

theorem of_append (tr : List (Event ι Call Answer)) (e : Event ι Call Answer) :
    of cfg lib (tr ++ [e]) = (of cfg lib tr).note cfg lib e := by
  simp [of]

end

variable {cfg : Config} {lib : CronLib} {crons : List CronRecord} {key : String × Int}

/-- A lock of a listed cron stands for a run of its name at its second. -/
theorem runIn_of_listed (h : LocksListed cfg lib crons key.1 key.2) :
    ∃ t : Time, runIn cfg lib crons key = some (key.1, t) ∧ t.unix = key.2 := by
  obtain ⟨cron, hmem, hname, t, ht, hunix⟩ := h
  have hsome : (runIn cfg lib crons key).isSome := by
    rw [runIn, List.findSome?_isSome_iff]
    refine ⟨cron, hmem, ?_⟩
    rw [if_pos hname, ht]
    simp [hunix]
  obtain ⟨run, hrun⟩ := Option.isSome_iff_exists.mp hsome
  obtain ⟨other, -, hother⟩ := List.exists_of_findSome?_eq_some hrun
  obtain ⟨-, hother⟩ := Option.ite_none_right_eq_some.mp hother
  obtain ⟨t', ht', rfl⟩ := Option.map_eq_some_iff.mp hother
  exact ⟨t', hrun, by simpa using (Option.filter_eq_some_iff.mp ht').2⟩

end Book

/-! ## The invariant -/

/-- The process may store a job under the lock. -/
def Firing.holds (key : String × Int) : Firing → Prop
  | .turn _ _ lock spent => lock = some key ∧ spent = false
  | _ => False

/-- What a process stands for is in the book. -/
def Firing.booked (cfg : Config) (lib : CronLib) (listed : List CronRecord)
    (lock : Option (String × Int)) : Firing → Prop
  | .start => listed = [] ∧ lock = none
  | .listed crons => listed = crons ∧ lock = none
  | .turn _ crons lock' _ => listed = crons ∧ lock = lock' ∧
      ∀ key, lock = some key → LocksListed cfg lib crons key.1 key.2

structure Once (cfg : Config) (lib : CronLib) (b : Book ι) (w : World) (t : ι → Firing) : Prop where
  booked : ∀ i, (t i).booked cfg lib (b.listed i) (b.lock i)
  locked : ∀ i key, (t i).holds key → (w.store.cronLocks.lookup key).isSome
  unspent : ∀ i key, (t i).holds key → ∀ s : Time, s.unix = key.2 → b.pushed (some (key.1, s)) = 0
  apart : ∀ i j key, (t i).holds key → (t j).holds key → i = j
  past : ∀ name (s : Time), b.pushed (some (name, s)) ≠ 0 →
    (w.store.cronLocks.lookup (name, s.unix)).isSome
  once : ∀ name (s : Time), b.pushed (some (name, s)) ≤ 1
  strays : b.pushed none = 0

section
variable {cfg : Config} {lib : CronLib} {b b' : Book ι} {w w' : World} {t : ι → Firing} {i : ι}
  {s : Firing}

/-- A step that neither acquires a lock nor stores a job. -/
theorem Once.keep (h : Once cfg lib b w t)
    (hlocks : ∀ key, (w.store.cronLocks.lookup key).isSome → (w'.store.cronLocks.lookup key).isSome)
    (hpushed : b'.pushed = b.pushed)
    (hothers : ∀ j, j ≠ i → b'.listed j = b.listed j ∧ b'.lock j = b.lock j)
    (hs : s.booked cfg lib (b'.listed i) (b'.lock i)) (hholds : ∀ key, s.holds key → (t i).holds key) :
    Once cfg lib b' w' (Function.update t i s) := by
  have hheld : ∀ j key, (Function.update t i s j).holds key → (t j).holds key := by
    intro j key hj
    by_cases hji : j = i
    · subst hji
      rw [Function.update_self] at hj
      exact hholds key hj
    · rwa [Function.update_of_ne hji] at hj
  refine ⟨fun j => ?_, fun j key hj => hlocks _ (h.locked j key (hheld j key hj)),
    fun j key hj => ?_, fun j k key hj hk => h.apart j k key (hheld j key hj) (hheld k key hk),
    fun name s hs => ?_, ?_, ?_⟩
  · by_cases hji : j = i
    · subst hji
      rwa [Function.update_self]
    · rw [Function.update_of_ne hji, (hothers j hji).1, (hothers j hji).2]
      exact h.booked j
  · rw [hpushed]
    exact h.unspent j key (hheld j key hj)
  · rw [hpushed] at hs
    exact hlocks _ (h.past name s hs)
  · rw [hpushed]
    exact h.once
  · rw [hpushed]
    exact h.strays

/-- A lock is acquired: nobody has it, and nothing was stored under it. -/
theorem Once.acquire (h : Once cfg lib b w t) {now : Time} {crons : List CronRecord}
    {lock : Option (String × Int)} {spent : Bool} {key : String × Int} {ttl : Int}
    (hi : t i = .turn now crons lock spent) (hlisted : LocksListed cfg lib crons key.1 key.2)
    (hfree : w.store.cronLocks.lookup key = none)
    (hput : w'.store.cronLocks = w.store.cronLocks.insert key ttl) :
    Once cfg lib (b.hold i (some key)) w'
      (Function.update t i (.turn now crons (some key) false)) := by
  have hlocks : ∀ k, (w.store.cronLocks.lookup k).isSome → (w'.store.cronLocks.lookup k).isSome := by
    intro k hk
    rw [hput]
    by_cases hne : k = key
    · subst hne
      rw [AList.lookup_insert]
      rfl
    · rwa [AList.lookup_insert_ne hne]
  have hnone : ∀ j, ¬(t j).holds key := fun j hj => by
    have := h.locked j key hj
    rw [hfree] at this
    cases this
  have hheld : ∀ j k, (Function.update t i (.turn now crons (some key) false) j).holds k →
      (j = i ∧ k = key) ∨ (t j).holds k := by
    intro j k hj
    by_cases hji : j = i
    · subst hji
      rw [Function.update_self] at hj
      exact .inl ⟨rfl, (Option.some.inj hj.1).symm⟩
    · rw [Function.update_of_ne hji] at hj
      exact .inr hj
  have hself : (w'.store.cronLocks.lookup key).isSome := by
    rw [hput, AList.lookup_insert]
    rfl
  refine ⟨fun j => ?_, fun j k hj => ?_, fun j k hj => ?_, fun j j' k hj hj' => ?_,
    fun name s hs => hlocks _ (h.past name s hs), h.once, h.strays⟩
  · by_cases hji : j = i
    · subst hji
      have hb := h.booked j
      rw [hi] at hb
      simp only [Book.hold, Function.update_self]
      exact ⟨hb.1, rfl, fun k hk => by rw [← Option.some.inj hk]; exact hlisted⟩
    · simp only [Book.hold, Function.update_of_ne hji]
      exact h.booked j
  · rcases hheld j k hj with ⟨-, rfl⟩ | hj
    · exact hself
    · exact hlocks k (h.locked j k hj)
  · rcases hheld j k hj with ⟨-, rfl⟩ | hj
    · intro s hs
      by_contra hne
      have := h.past k.1 s hne
      rw [hs] at this
      rw [hfree] at this
      cases this
    · exact h.unspent j k hj
  · rcases hheld j k hj with ⟨hji, hk⟩ | hjk
    · rcases hheld j' k hj' with ⟨hji', -⟩ | hjk'
      · exact hji.trans hji'.symm
      · exact absurd (hk ▸ hjk') (hnone j')
    · rcases hheld j' k hj' with ⟨-, hk⟩ | hjk'
      · exact absurd (hk ▸ hjk) (hnone j)
      · exact h.apart j j' k hjk hjk'

/-- A job is stored under the lock the process has. -/
theorem Once.store (h : Once cfg lib b w t) {now : Time} {crons : List CronRecord}
    {key : String × Int} (hi : t i = .turn now crons (some key) false)
    (hlocks : w'.store.cronLocks = w.store.cronLocks) :
    Once cfg lib (b.count (b.runOf cfg lib i)) w'
      (Function.update t i (.turn now crons (some key) true)) := by
  have hhold : (t i).holds key := by
    rw [hi]
    exact ⟨rfl, rfl⟩
  have hb := h.booked i
  rw [hi] at hb
  obtain ⟨hlisted, hlock, hin⟩ := hb
  obtain ⟨s, hrun, hunix⟩ := Book.runIn_of_listed (hin key hlock)
  have hrunOf : b.runOf cfg lib i = some (key.1, s) := by
    rw [Book.runOf, hlock, hlisted]
    exact hrun
  have hzero : b.pushed (some (key.1, s)) = 0 := h.unspent i key hhold s hunix
  rw [hrunOf, Book.count, hzero]
  have hheld : ∀ j k, (Function.update t i (.turn now crons (some key) true) j).holds k →
      j ≠ i ∧ (t j).holds k := by
    intro j k hj
    by_cases hji : j = i
    · subst hji
      rw [Function.update_self] at hj
      cases hj.2
    · rw [Function.update_of_ne hji] at hj
      exact ⟨hji, hj⟩
  refine ⟨fun j => ?_, fun j k hj => ?_, fun j k hj s' hs' => ?_, fun j j' k hj hj' => ?_,
    fun name s' hs' => ?_, fun name s' => ?_, ?_⟩
  · by_cases hji : j = i
    · subst hji
      rw [Function.update_self]
      exact ⟨hlisted, hlock, hin⟩
    · rw [Function.update_of_ne hji]
      exact h.booked j
  · rw [hlocks]
    exact h.locked j k (hheld j k hj).2
  · obtain ⟨hji, hjk⟩ := hheld j k hj
    have hne : (some (k.1, s') : Option (String × Time)) ≠ some (key.1, s) := by
      intro he
      obtain ⟨h1, rfl⟩ := Prod.mk.inj (Option.some.inj he)
      have hk : k = key := Prod.ext h1 (hs'.symm.trans hunix)
      exact hji (h.apart j i key (hk ▸ hjk) hhold)
    simp only [Function.update_of_ne hne]
    exact h.unspent j k hjk s' hs'
  · exact h.apart j j' k (hheld j k hj).2 (hheld j' k hj').2
  · rw [hlocks]
    by_cases he : (some (name, s') : Option (String × Time)) = some (key.1, s)
    · obtain ⟨rfl, rfl⟩ := Prod.mk.inj (Option.some.inj he)
      rw [hunix]
      exact h.locked i key hhold
    · simp only [Function.update_of_ne he] at hs'
      exact h.past name s' hs'
  · by_cases he : (some (name, s') : Option (String × Time)) = some (key.1, s)
    · simp only [he, Function.update_self]
      exact le_refl 1
    · simp only [Function.update_of_ne he]
      exact h.once name s'
  · exact h.strays

/-! ## One step -/

omit [DecidableEq ι] in
/-- A lock that is there stays there. -/
theorem Rules.skewed_locks {ρ : Rules} {c : Call} {r : Answer c} {key : String × Int}
    (h : ρ.skewed c w r w') (hkey : (w.store.cronLocks.lookup key).isSome) :
    (w'.store.cronLocks.lookup key).isSome := by
  by_cases hc : ∃ name ts ttl, c = .dynamo (.putCronLockItem name ts ttl)
  · obtain ⟨name, ts, ttl, rfl⟩ := hc
    rcases Rules.skewed_cases h with he | ⟨hc, -⟩
    · obtain ⟨ch, s', -, hact, rfl⟩ := Rules.env_dynamo he
      rcases Store.act_cases hact with hr | rfl
      · have hs' : s' = (w.store.run (.putCronLockItem name ts ttl)).2 := congrArg Prod.snd hr
        rw [hs']
        simp only [World.setStore, Store.run]
        split
        · exact hkey
        · by_cases hne : key = (name, ts)
          · subst hne
            simp
          · simp only [AList.lookup_insert_ne hne]
            exact hkey
      · exact hkey
    · cases hc
  · rw [Rules.skewed_frame (fun s => s.cronLocks) (fun d hd => ?_) h]
    · exact hkey
    · subst hd
      cases d <;> simp only [Store.run] <;> (try split) <;>
        first | rfl | exact absurd ⟨_, _, _, rfl⟩ hc

omit [DecidableEq ι] in
/-- A lock that could be put was not there. -/
theorem Rules.skewed_acquire {ρ : Rules} {name : String} {ts ttl : Int} {u : Unit}
    (h : ρ.skewed (.dynamo (.putCronLockItem name ts ttl)) w
      (Except.ok u : Except AwsError Unit) w') :
    w.store.cronLocks.lookup (name, ts) = none ∧
      w'.store.cronLocks = w.store.cronLocks.insert (name, ts) ttl := by
  rcases Rules.skewed_cases h with he | ⟨hc, -⟩
  · have hrun := Rules.env_ok rfl he
    simp only [Store.run] at hrun
    split at hrun
    · cases (Prod.mk.inj hrun).1
    · rename_i hnone
      exact ⟨hnone, congrArg Store.cronLocks (Prod.mk.inj hrun).2⟩
  · cases hc

theorem Once.step {ρ : Rules} {op : CronOp} {c : Call} {r : Answer c} (h : Once cfg lib b w t)
    (ha : (op.monitor cfg lib).allow (t i) c) (he : ρ.skewed c w r w') :
    Once cfg lib (b.note cfg lib ⟨i, c, r⟩) w'
      (Function.update t i ((op.monitor cfg lib).next (t i) c r)) := by
  have hlocks : ∀ key, (w.store.cronLocks.lookup key).isSome →
      (w'.store.cronLocks.lookup key).isSome := fun _ => Rules.skewed_locks he
  have hb := h.booked i
  have hothers : ∀ j, j ≠ i → b.listed j = b.listed j ∧ b.lock j = b.lock j := fun _ _ => ⟨rfl, rfl⟩
  cases op with
  | delete name =>
    have hsame : (CronOp.monitor cfg lib (.delete name)).next (t i) c r = t i := rfl
    rw [hsame]
    rcases ha with rfl | rfl <;> exact h.keep hlocks rfl hothers hb fun _ hk => hk
  | register zone cronJob =>
    cases hs : t i with
    | start =>
      rw [hs] at ha hb
      subst ha
      exact h.keep hlocks rfl hothers
        ⟨hb.1, hb.2, fun key hk => by cases hb.2.symm.trans hk⟩ fun key hk => by cases hk.1
    | listed crons =>
      rw [hs] at ha
      exact ha.elim
    | turn now crons lock spent =>
      rw [hs] at ha hb
      obtain ⟨schedule, -, rfl⟩ := ha
      exact h.keep hlocks rfl hothers hb fun key hk => by rw [hs]; exact hk
  | fire zone =>
    cases hs : t i with
    | start =>
      rw [hs] at ha hb
      subst ha
      rcases r with e | crons
      · exact h.keep hlocks rfl hothers hb fun key hk => hk.elim
      · refine h.keep hlocks rfl (fun j hj => ⟨Function.update_of_ne hj _ _, rfl⟩)
          ⟨Function.update_self _ _ _, hb.2⟩ fun key hk => hk.elim
    | listed crons =>
      rw [hs] at ha hb
      subst ha
      exact h.keep hlocks rfl hothers
        ⟨hb.1, hb.2, fun key hk => by cases hb.2.symm.trans hk⟩ fun key hk => by cases hk.1
    | turn now crons lock spent =>
      have hstay : ∀ b' : Book ι, b' = b → Once cfg lib b' w'
          (Function.update t i (.turn now crons lock spent)) := by
        rintro _ rfl
        rw [hs] at hb
        exact h.keep hlocks rfl hothers hb fun key hk => by rw [hs]; exact hk
      rw [hs] at ha hb
      cases c with
      | dynamo d =>
        cases d with
        | putCronLockItem name ts ttl =>
          rcases r with e | u
          · refine h.keep hlocks rfl (fun j hj => ⟨rfl, Function.update_of_ne hj _ _⟩)
              ⟨hb.1, Function.update_self _ _ _, fun key hk => ?_⟩ fun key hk => by cases hk.1
            simp only [Book.note, Book.hold, Function.update_self] at hk
            cases hk
          · obtain ⟨hfree, hput⟩ := Rules.skewed_acquire he
            exact Once.acquire h hs ha hfree hput
        | putJobItem job =>
          obtain ⟨hlock, rfl⟩ := ha
          obtain ⟨key, rfl⟩ := Option.isSome_iff_exists.mp hlock
          exact h.store hs (Rules.skewed_frame (fun s => s.cronLocks)
            (fun d hd => by cases hd; rfl) he)
        | deleteCronItem name => exact ha.elim
        | scanCrons => exact ha.elim
        | _ => exact hstay _ rfl
      | sqs c => exact hstay _ rfl
      | proc c => exact hstay _ rfl

end

/-! ## The theorem -/

omit [DecidableEq ι] in
theorem once_start (cfg : Config) (lib : CronLib) (w : World) :
    Once cfg lib (Book.empty : Book ι) w fun _ => .start :=
  ⟨fun _ => ⟨rfl, rfl⟩, fun _ _ h => h.elim, fun _ _ h => h.elim, fun _ _ _ h => h.elim,
    fun _ _ h => absurd rfl h, fun _ _ => Nat.zero_le 1, rfl⟩

/-- **At most one job for each run of a cron.** Whatever the processes'
clocks, the registrations in between and the order of the calls: a job is only
stored for a run of a listed cron, and at most one for each. -/
theorem cron_runs_push_once {cfg : Config} {lib : CronLib} {ρ : Rules} {op : ι → CronOp}
    {w : World} {tr : List (Event ι Call Answer)} {P : Pool ι World Call Answer Unit}
    (hr : Pool.Run ρ.skewed Pool.anyStep ⟨w, fun i => (op i).prog cfg lib⟩ tr P) :
    (Book.of cfg lib tr).pushed none = 0 ∧
      ∀ name (t : Time), (Book.of cfg lib tr).pushed (some (name, t)) ≤ 1 := by
  have hI := (hr.invariant (m := fun i => (op i).monitor cfg lib) (s := fun _ => .start)
    (fun tr w t => Once cfg lib (Book.of cfg lib tr) w t)
    (fun i => CronOp.conforms cfg lib (op i)) (once_start cfg lib w)
    (fun tr w t i c r w' h ha he _ => by
      rw [Book.of_append]
      exact h.step ha he)).1
  exact ⟨hI.strays, hI.once⟩

/-- Two processes list the cron while it is due; one of them gets the lock. -/
def twoProcesses : List (Bool × Choice) :=
  [(true, .page ["report"]), (false, .page ["report"]), (true, .tick (24 * hour)),
    (false, .tick (33 * hour)), (true, .tick (24 * hour)), (false, .tick (33 * hour)),
    (true, .ok), (false, .ok)] ++ (reportRun (24 * hour)).map fun ch => (true, ch)

/-- Its run is pushed once. -/
theorem cron_runs_push_once_report : ∃ tr : List (Event Bool Call Answer),
    (Book.of cronDemo demoLib tr).pushed (some ("report", 24 * hour)) = 1 ∧
      (Book.of cronDemo demoLib tr).pushed none = 0 ∧
      ∀ name (t : Time), (Book.of cronDemo demoLib tr).pushed (some (name, t)) ≤ 1 := by
  have hrun : ∃ out, Pool.script (Rules.skewedAct {}) Pool.anyStep [] twoProcesses
      ⟨reportWorld, fun _ => CronOp.prog cronDemo demoLib (.fire "UTC")⟩ = some out ∧
      (Book.of cronDemo demoLib out.1).pushed (some ("report", 24 * hour)) = 1 := ⟨_, rfl, rfl⟩
  obtain ⟨⟨tr, P⟩, hscript, hone⟩ := hrun
  exact ⟨tr, hone, @cron_runs_push_once _ _ _ _ _ (fun _ => .fire "UTC") _ _ _
    (Pool.script_run twoProcesses .start hscript)⟩

end OjsSqs
