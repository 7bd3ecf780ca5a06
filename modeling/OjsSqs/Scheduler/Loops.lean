import OjsSqs.Sqs.Crons
import OjsSqs.Sqs.Scheduling
import Mathlib.Logic.Function.Basic

/-! # The scheduler and its loops

`Start` begins three goroutines, each of which runs one function of the backend
when its ticker fires. `Stop` closes a channel that the loops select on, once for
any number of calls, and waits for the loops. Every call a loop makes of the
backend is a step of its own, with any answer. -/

namespace OjsSqs
open Calls

/-- The loops that `Start` begins. -/
inductive LoopName where
  | scheduledPromoter | retryPromoter | cronScheduler
deriving DecidableEq, Repr

def LoopName.text : LoopName → String
  | .scheduledPromoter => "scheduled-promoter"
  | .retryPromoter => "retry-promoter"
  | .cronScheduler => "cron-scheduler"

inductive LoopPc where
  | select
  | running (p : M (Option Error))
  | returned

/-- A goroutine of `runLoop`; `tick` says that the channel of its ticker, which has
room for one, holds a tick. -/
structure RunLoop where
  name : LoopName
  tick : Bool := false
  pc : LoopPc := .select

def RunLoop.isReturned (l : RunLoop) : Bool :=
  match l.pc with
  | .returned => true
  | _ => false

/-- `sync.Once` -/
inductive OnceState where
  | idle | running | done
deriving DecidableEq, Repr

/-- Where a call of `Stop` is. -/
inductive StopPc where
  | idle | entering | closing | waiting | returned
deriving DecidableEq, Repr

inductive SchedulerPanic where
  | closeOfClosedChannel
  | negativeWaitGroup
deriving DecidableEq, Repr

/-- The calls of `Start` are made by one goroutine, those of `Stop` by any. -/
structure Scheduler where
  /-- the channel `stop` is closed -/
  stop : Bool := false
  wg : Nat := 0
  stopOnce : OnceState := .idle
  /-- the `go` statements of `Start` still to come -/
  starting : List LoopName := []
  loops : List RunLoop := []
  stopping : Nat → StopPc := fun _ => .idle
  logged : List (String × Error) := []
  panic : Option SchedulerPanic := none

namespace Scheduler

def setLoop (i : Nat) (l : RunLoop) (s : Scheduler) : Scheduler :=
  { s with loops := s.loops.set i l }

def setStopping (c : Nat) (pc : StopPc) (s : Scheduler) : Scheduler :=
  { s with stopping := Function.update s.stopping c pc }

/-- `s.wg.Done()` -/
def done (s : Scheduler) : Scheduler :=
  if s.wg = 0 then { s with panic := some .negativeWaitGroup } else { s with wg := s.wg - 1 }

/-- `close(s.stop)` -/
def closeStop (s : Scheduler) : Scheduler :=
  if s.stop then { s with panic := some .closeOfClosedChannel } else { s with stop := true }

/-- The error of a run of `fn`, if there is one. -/
def log (name : LoopName) (err : Option Error) (s : Scheduler) : Scheduler :=
  match err with
  | none => s
  | some e => { s with logged := s.logged ++ [(name.text, e)] }

inductive Label where
  /-- `Start`: its `wg.Add(3)`, and a `go` statement -/
  | start
  | go
  /-- the ticker of a loop fires, the loop reads its tick, makes a call of the
  backend, and comes back from `fn` -/
  | tick (i : Nat)
  | takeTick (i : Nat)
  | call (i : Nat) (answer : (c : Call) → Answer c)
  | ran (i : Nat)
  /-- a loop reads the closed channel and returns -/
  | takeStop (i : Nat)
  /-- `Stop`: it begins, comes into `stopOnce.Do` or past it, closes the channel,
  and has waited -/
  | stop (c : Nat)
  | once (c : Nat)
  | close (c : Nat)
  | wait (c : Nat)

/-- One loop takes a step of its own. -/
def onLoop (i : Nat) (f : RunLoop → Option RunLoop) (s : Scheduler) : Option Scheduler :=
  (s.loops[i]?).bind fun l => (f l).map fun l' => s.setLoop i l'

end Scheduler

namespace RunLoop

/-- The channel drops a tick when it holds one. The ticker is stopped when the loop returns. -/
def fires (l : RunLoop) : Option RunLoop :=
  if l.isReturned then none else some { l with tick := true }

def takes (fn : LoopName → M (Option Error)) (l : RunLoop) : Option RunLoop :=
  match l.pc with
  | .select => if l.tick then some { l with tick := false, pc := .running (fn l.name) } else none
  | _ => none

def answered (answer : (c : Call) → Answer c) (l : RunLoop) : Option RunLoop :=
  match l.pc with
  | .running (.call c k) => some { l with pc := .running (k (answer c)) }
  | _ => none

/-- What `fn` has returned. -/
def result (l : RunLoop) : Option (Option Error) :=
  match l.pc with
  | .running (.pure err) => some err
  | _ => none

def atSelect (l : RunLoop) : Bool :=
  match l.pc with
  | .select => true
  | _ => false

end RunLoop

namespace Scheduler

/-- What a step does, when it is possible. A `select` with two cases to take takes
either. -/
def step (fn : LoopName → M (Option Error)) (s : Scheduler) : Label → Option Scheduler
  | .start =>
    if s.starting = [] then
      some { s with wg := s.wg + 3, starting := [.scheduledPromoter, .retryPromoter, .cronScheduler] }
    else none
  | .go =>
    match s.starting with
    | [] => none
    | name :: rest => some { s with starting := rest, loops := s.loops ++ [{ name := name }] }
  | .tick i => s.onLoop i RunLoop.fires
  | .takeTick i => s.onLoop i (RunLoop.takes fn)
  | .call i answer => s.onLoop i (RunLoop.answered answer)
  | .ran i =>
    (s.loops[i]?).bind fun l => l.result.map fun err =>
      (s.setLoop i { l with pc := .select }).log l.name err
  | .takeStop i =>
    (s.loops[i]?).bind fun l =>
      if l.atSelect ∧ s.stop then some (s.setLoop i { l with pc := .returned }).done else none
  | .stop c => if s.stopping c = .idle then some (s.setStopping c .entering) else none
  | .once c =>
    if s.stopping c = .entering then
      match s.stopOnce with
      | .idle => some { s.setStopping c .closing with stopOnce := .running }
      | .running => none
      | .done => some (s.setStopping c .waiting)
    else none
  | .close c =>
    if s.stopping c = .closing then
      some { s.closeStop.setStopping c .waiting with stopOnce := .done }
    else none
  | .wait c =>
    if s.stopping c = .waiting ∧ s.wg = 0 then some (s.setStopping c .returned) else none

/-- The functions of the backend that the loops run. -/
def backendFn (cfg : Config) (lib : CronLib) (zone : String) : LoopName → M (Option Error)
  | .scheduledPromoter => promoteScheduled cfg
  | .retryPromoter => promoteRetries cfg
  | .cronScheduler => fireCronJobs cfg lib zone

/-- A step of a goroutine that `Start` has begun, or the beginning of one. -/
def Label.ofLoops : Label → Bool
  | .go | .tick _ | .takeTick _ | .call _ _ | .ran _ | .takeStop _ => true
  | _ => false

def Label.isClose : Label → Bool
  | .close _ => true
  | _ => false

/-- No `Start` begins after a `Stop` has begun. -/
def StartsFirst (ls : List Label) : Prop :=
  ∀ before c after, ls = before ++ .stop c :: after → Label.start ∉ after

end Scheduler
end OjsSqs
