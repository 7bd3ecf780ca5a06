import OjsSqs.Calls.Locked
import OjsSqs.Core.Job
import Mathlib.Data.List.AList

/-! # Checkpoints of running jobs

The checkpoints are a map in the memory of the process under a readers-writer
lock. Any number of calls run next to each other, and each access to the map is a
step of its own. In the order in which the calls leave the lock, a job's checkpoint
is the last one saved since it was last deleted, and its sequence number counts
the saves since then. -/

namespace OjsSqs
open Calls

structure Checkpoint where
  jobID : String
  state : String
  sequence : Nat
  createdAt : Time
deriving DecidableEq, Repr

/-- `checkpointStore.store` -/
abbrev CheckpointStore := AList fun _ : String => Checkpoint

/-- What a section does with the map, and its look at the clock. -/
inductive CheckpointCall where
  | lookup (jobID : String)
  | put (jobID : String) (cp : Checkpoint)
  | delete (jobID : String)
  | now

namespace CheckpointCall

abbrev Answer : CheckpointCall → Type
  | .lookup _ => Option Checkpoint
  | .put _ _ => Unit
  | .delete _ => Unit
  | .now => Time

/-- The clock says what it is made to say. -/
def act (clock : Time) : (c : CheckpointCall) → CheckpointStore → Option (Answer c × CheckpointStore)
  | .lookup jobID, store => some (store.lookup jobID, store)
  | .put jobID cp, store => some ((), store.insert jobID cp)
  | .delete jobID, store => some ((), store.erase jobID)
  | .now, store => some (clock, store)

/-- The calls that leave the map as it is. -/
def reads : CheckpointCall → Prop
  | .lookup _ => True
  | _ => False

theorem act_reads {c : CheckpointCall} (hc : c.reads) {clock : Time} {store store' : CheckpointStore}
    {r : Answer c} (h : act clock c store = some (r, store')) : store' = store := by
  cases c with
  | lookup jobID => simp_all [act]
  | put jobID cp => cases hc
  | delete jobID => cases hc
  | now => cases hc

theorem act_total (c : CheckpointCall) (store : CheckpointStore) :
    ∃ clock r store', act clock c store = some (r, store') := by
  cases c with
  | lookup jobID => exact ⟨0, _, _, rfl⟩
  | put jobID cp => exact ⟨0, _, _, rfl⟩
  | delete jobID => exact ⟨0, _, _, rfl⟩
  | now => exact ⟨0, _, _, rfl⟩

section
variable {store : CheckpointStore}

@[simp] theorem every_lookup {jobID : String} {Q : Option Checkpoint → CheckpointStore → Prop} :
    (Env.ofAct act).every (.lookup jobID) Q store ↔ Q (store.lookup jobID) store := by
  simp [Env.every, Env.ofAct, act]

@[simp] theorem every_put {jobID : String} {cp : Checkpoint} {Q : Unit → CheckpointStore → Prop} :
    (Env.ofAct act).every (.put jobID cp) Q store ↔ Q () (store.insert jobID cp) := by
  simp only [Env.every, Env.ofAct, act, Option.some.injEq, Prod.mk.injEq]
  constructor
  · intro h
    exact h () _ ⟨0, trivial, rfl⟩
  · intro h r store' ⟨_, _, hs⟩
    rwa [← hs]

@[simp] theorem every_delete {jobID : String} {Q : Unit → CheckpointStore → Prop} :
    (Env.ofAct act).every (.delete jobID) Q store ↔ Q () (store.erase jobID) := by
  simp only [Env.every, Env.ofAct, act, Option.some.injEq, Prod.mk.injEq]
  constructor
  · intro h
    exact h () _ ⟨0, trivial, rfl⟩
  · intro h r store' ⟨_, _, hs⟩
    rwa [← hs]

@[simp] theorem every_now {Q : Time → CheckpointStore → Prop} :
    (Env.ofAct act).every .now Q store ↔ ∀ clock, Q clock store := by
  simp [Env.every, Env.ofAct, act]

end

end CheckpointCall

/-! ## The methods, under the lock -/

/-- What the methods return; the first two return no checkpoint. -/
abbrev CheckpointReply := Except Error (Option Checkpoint)

abbrev CheckpointSection := Prog CheckpointCall CheckpointCall.Answer CheckpointReply

def saveCheckpoint (jobID state : String) : CheckpointSection := do
  let existing : Option Checkpoint ← Prog.perform (CheckpointCall.lookup jobID)
  let seq := match existing with
    | some existing => existing.sequence + 1
    | none => 1
  let createdAt : Time ← Prog.perform CheckpointCall.now
  let _ ← Prog.perform (CheckpointCall.put jobID ⟨jobID, state, seq, createdAt⟩)
  return .ok none

def getCheckpoint (jobID : String) : CheckpointSection := do
  let cp : Option Checkpoint ← Prog.perform (CheckpointCall.lookup jobID)
  match cp with
  | none => return .error (.plain s!"checkpoint for job '{jobID}' not found")
  | some cp => return .ok (some cp)

def deleteCheckpoint (jobID : String) : CheckpointSection := do
  let _ ← Prog.perform (CheckpointCall.delete jobID)
  return .ok none

inductive CheckpointOp where
  | save (jobID state : String)
  | get (jobID : String)
  | delete (jobID : String)
deriving DecidableEq, Repr

namespace CheckpointOp

/-- `cpStore.mu.Lock()` or `cpStore.mu.RLock()` -/
def access : CheckpointOp → Access
  | .save _ _ => .write
  | .get _ => .read
  | .delete _ => .write

def body : CheckpointOp → CheckpointSection
  | .save jobID state => saveCheckpoint jobID state
  | .get jobID => getCheckpoint jobID
  | .delete jobID => deleteCheckpoint jobID

end CheckpointOp

/-- The call `op i` of each thread, on a new store. -/
def checkpointCalls {ι : Type} (op : ι → CheckpointOp) :
    Pool ι (Locked CheckpointStore) (Locking CheckpointCall) (Locking.Answer CheckpointCall.Answer)
      CheckpointReply :=
  Pool.sections (fun i => (op i).access) (fun i => (op i).body) ∅

abbrev checkpointEnv : Env (Locked CheckpointStore) (Locking CheckpointCall)
    (Locking.Answer CheckpointCall.Answer) :=
  Env.ofAct (lockedAct CheckpointCall.act)

/-! ## What is saved -/

namespace CheckpointOp

/-- The states saved for a job, and not deleted, after one more call. -/
def saves (jobID : String) (states : List String) : CheckpointOp → List String
  | .save id state => if id = jobID then states ++ [state] else states
  | .get _ => states
  | .delete id => if id = jobID then [] else states

/-- The states saved for a job since its checkpoint was last deleted. -/
def saved (jobID : String) (ops : List CheckpointOp) : List String := ops.foldl (saves jobID) []

@[simp] theorem saved_nil (jobID : String) : saved jobID [] = [] := rfl

@[simp] theorem saved_snoc (jobID : String) (ops : List CheckpointOp) (op : CheckpointOp) :
    saved jobID (ops ++ [op]) = op.saves jobID (saved jobID ops) := by
  simp [saved]

/-- What a call returns after the calls `ops`. -/
def Answers (ops : List CheckpointOp) : CheckpointOp → CheckpointReply → Prop
  | .get jobID, a => match (saved jobID ops).getLast? with
    | none => a = .error (.plain s!"checkpoint for job '{jobID}' not found")
    | some state => ∃ createdAt,
      a = .ok (some ⟨jobID, state, (saved jobID ops).length, createdAt⟩)
  | .save _ _, a => a = .ok none
  | .delete _, a => a = .ok none

end CheckpointOp

/-- The map holds for a job what was saved last, numbered. -/
def CheckpointStore.Keeps (ops : List CheckpointOp) (store : CheckpointStore) : Prop :=
  ∀ jobID, match store.lookup jobID with
    | none => CheckpointOp.saved jobID ops = []
    | some cp => cp.jobID = jobID ∧ (CheckpointOp.saved jobID ops).getLast? = some cp.state ∧
      cp.sequence = (CheckpointOp.saved jobID ops).length

section
variable {ops : List CheckpointOp} {store store' : CheckpointStore} {a : CheckpointReply}

namespace CheckpointStore.Keeps

theorem empty : CheckpointStore.Keeps [] ∅ := by
  intro jobID
  simp

/-- A call that saves and deletes nothing of a job. -/
theorem of_same {jobID : String} {op : CheckpointOp} (h : store.Keeps ops)
    (hl : store'.lookup jobID = store.lookup jobID)
    (hs : op.saves jobID (CheckpointOp.saved jobID ops) = CheckpointOp.saved jobID ops) :
    match store'.lookup jobID with
    | none => CheckpointOp.saved jobID (ops ++ [op]) = []
    | some cp => cp.jobID = jobID ∧
      (CheckpointOp.saved jobID (ops ++ [op])).getLast? = some cp.state ∧
      cp.sequence = (CheckpointOp.saved jobID (ops ++ [op])).length := by
  rw [hl, CheckpointOp.saved_snoc, hs]
  exact h jobID

theorem save (h : store.Keeps ops) (jobID state : String) :
    wp (Env.ofAct CheckpointCall.act).every (saveCheckpoint jobID state)
      (fun a store' => store'.Keeps (ops ++ [.save jobID state]) ∧ a = .ok none) store := by
  simp only [saveCheckpoint, wp_bind, wp_perform, wp_pure, CheckpointCall.every_lookup,
    CheckpointCall.every_now, CheckpointCall.every_put]
  intro createdAt
  refine ⟨?_, trivial⟩
  intro id
  by_cases hid : id = jobID
  · subst hid
    have hk := h id
    simp only [AList.lookup_insert, CheckpointOp.saved_snoc, CheckpointOp.saves, if_true]
    refine ⟨trivial, by simp, ?_⟩
    cases hl : store.lookup id with
    | none =>
      rw [hl] at hk
      simp [hk]
    | some cp =>
      rw [hl] at hk
      simp [hk.2.2]
  · refine h.of_same (AList.lookup_insert_ne hid) ?_
    simp [CheckpointOp.saves, Ne.symm hid]

theorem delete (h : store.Keeps ops) (jobID : String) :
    wp (Env.ofAct CheckpointCall.act).every (deleteCheckpoint jobID)
      (fun a store' => store'.Keeps (ops ++ [.delete jobID]) ∧ a = .ok none) store := by
  simp only [deleteCheckpoint, wp_bind, wp_perform, wp_pure, CheckpointCall.every_delete]
  refine ⟨?_, trivial⟩
  intro id
  by_cases hid : id = jobID
  · subst hid
    simp [CheckpointOp.saves]
  · refine h.of_same (AList.lookup_erase_ne hid) ?_
    simp [CheckpointOp.saves, Ne.symm hid]

theorem get (h : store.Keeps ops) (jobID : String) :
    wp (Env.ofAct CheckpointCall.act).every (getCheckpoint jobID)
      (fun a store' => store'.Keeps (ops ++ [.get jobID]) ∧
        (CheckpointOp.get jobID).Answers ops a) store := by
  have hk := h jobID
  have hsame : store.Keeps (ops ++ [.get jobID]) := fun id => h.of_same rfl rfl
  simp only [getCheckpoint, wp_bind, wp_perform, CheckpointCall.every_lookup]
  cases hl : store.lookup jobID with
  | none =>
    rw [hl] at hk
    refine ⟨hsame, ?_⟩
    simp [CheckpointOp.Answers, hk]
  | some cp =>
    rw [hl] at hk
    obtain ⟨hid, hlast, hseq⟩ := hk
    refine ⟨hsame, ?_⟩
    simp only [CheckpointOp.Answers, hlast]
    refine ⟨cp.createdAt, ?_⟩
    rw [← hseq]
    cases cp
    cases hid
    rfl

/-- One call. -/
theorem next (h : store.Keeps ops) {op : CheckpointOp}
    (hr : Runs (Env.ofAct CheckpointCall.act) op.body store a store') :
    store'.Keeps (ops ++ [op]) ∧ op.Answers ops a := by
  cases op with
  | save jobID state => exact (wp_iff_runs _ _ _ _).mp (h.save jobID state) a store' hr
  | get jobID => exact (wp_iff_runs _ _ _ _).mp (h.get jobID) a store' hr
  | delete jobID => exact (wp_iff_runs _ _ _ _).mp (h.delete jobID) a store' hr

end CheckpointStore.Keeps

theorem CheckpointOp.body_reads (op : CheckpointOp) (h : op.access = .read) :
    op.body.Only CheckpointCall.reads := by
  cases op with
  | save jobID state => cases h
  | delete jobID => cases h
  | get jobID =>
    refine Prog.only_bind (Prog.only_perform trivial) ?_
    intro cp
    cases cp with
    | none => exact Prog.only_pure _
    | some cp => exact Prog.only_pure _

end

/-! ## Any number of calls -/

section
variable {ι : Type} {op : ι → CheckpointOp} {store store' : CheckpointStore}
  {done : List (ι × CheckpointReply)}

/-- Calls one after the other: the store, and what each of them returned. -/
theorem inTurn_keeps
    (h : Path (Pool.InTurn (Env.ofAct CheckpointCall.act) fun i => (op i).body) ∅ done store) :
    store.Keeps (done.map fun x => op x.1) ∧
      ∀ before x after, done = before ++ x :: after →
        (op x.1).Answers (before.map fun y => op y.1) x.2 := by
  induction h with
  | nil =>
    refine ⟨.empty, ?_⟩
    intro before x after h
    cases before <;> cases h
  | @snoc done x store store' _ hs ih =>
    obtain ⟨hk, hall⟩ := ih
    obtain ⟨hk', ha⟩ := hk.next hs
    refine ⟨by simpa using hk', ?_⟩
    intro before y after h
    obtain rfl | ⟨after, z, rfl⟩ := List.eq_nil_or_concat' after
    · obtain ⟨rfl, hy⟩ := List.append_inj' h rfl
      cases hy
      exact ha
    · rw [← List.cons_append, ← List.append_assoc] at h
      exact hall before y after (List.append_inj' h rfl).1

end

section
variable {ι : Type} [DecidableEq ι]

/-- The calls that have returned are those that have left the lock, each has returned what its
predecessors in that order leave it, and while a call is open some call can go on. -/
structure CheckpointsInOrder (op : ι → CheckpointOp)
    (tr : List (Event ι (Locking CheckpointCall) (Locking.Answer CheckpointCall.Answer)))
    (P : Pool ι (Locked CheckpointStore) (Locking CheckpointCall)
      (Locking.Answer CheckpointCall.Answer) CheckpointReply) : Prop where
  once : (Pool.departures tr).Nodup
  left : ∀ i, i ∈ Pool.departures tr ↔ ∃ a, P.Returned i a
  answers : ∀ before i after, Pool.departures tr = before ++ i :: after →
    ∃ a, P.Returned i a ∧ (op i).Answers (before.map op) a
  goesOn : ∀ i, (∀ a, ¬ P.Returned i a) → ∃ e P', Pool.Step checkpointEnv P e P'

/-- **Checkpoints under any interleaving.** -/
theorem checkpoints_in_order (op : ι → CheckpointOp)
    {tr : List (Event ι (Locking CheckpointCall) (Locking.Answer CheckpointCall.Answer))}
    {P : Pool ι (Locked CheckpointStore) (Locking CheckpointCall)
      (Locking.Answer CheckpointCall.Answer) CheckpointReply}
    (hr : Pool.Run checkpointEnv Pool.anyStep (checkpointCalls op) tr P) :
    CheckpointsInOrder op tr P := by
  obtain ⟨done, base, inside, htr, h⟩ := Pool.Run.serving
    (fun c hc clock store r store' => CheckpointCall.act_reads hc)
    (fun i => (op i).body_reads) hr
  obtain ⟨-, hanswers⟩ := inTurn_keeps h.turns
  constructor
  · rw [htr]
    exact h.once
  · intro i
    rw [htr]
    simp [h.returned]
  · intro before i after hd
    rw [htr] at hd
    obtain ⟨before', rest, rfl, rfl, hrest⟩ := List.map_eq_append_iff.mp hd
    obtain ⟨x, after', rfl, rfl, -⟩ := List.map_eq_cons_iff.mp hrest
    refine ⟨x.2, h.returned.mpr (by simp), ?_⟩
    rw [List.map_map]
    exact hanswers before' x after' rfl
  · intro i hi
    exact h.progress CheckpointCall.act_total hi

end

/-- Two calls save a checkpoint of one job, the others read it. -/
def savesAndReads : Nat → CheckpointOp
  | 0 => .save "j1" "first"
  | 1 => .save "j1" "second"
  | _ => .get "j1"

/-- The second save waits for the first one, two reads are inside at once. -/
def savedThenRead : List (Nat × Time) :=
  [(0, 0), (0, 0), (0, 5), (0, 0), (0, 0), (1, 0), (1, 0), (1, 7), (1, 0), (1, 0),
    (2, 0), (3, 0), (2, 0), (3, 0), (3, 0), (2, 0)]

theorem checkpoints_in_order_saved : ∃ tr P, CheckpointsInOrder savesAndReads tr P ∧
    Pool.departures tr = [0, 1, 3, 2] ∧ P.Returned 2 (.ok (some ⟨"j1", "second", 2, 7⟩)) := by
  have hrun : ∃ out, Pool.script (lockedAct CheckpointCall.act) Pool.anyStep [] savedThenRead
      (checkpointCalls savesAndReads) = some out ∧ Pool.departures out.1 = [0, 1, 3, 2] ∧
      out.2.thread 2 = .pure (.ok (some ⟨"j1", "second", 2, 7⟩)) := ⟨_, rfl, rfl, rfl⟩
  obtain ⟨⟨tr, P⟩, hscript, hleft, hret⟩ := hrun
  exact ⟨tr, P, checkpoints_in_order savesAndReads (Pool.script_run savedThenRead .start hscript),
    hleft, hret⟩

end OjsSqs
