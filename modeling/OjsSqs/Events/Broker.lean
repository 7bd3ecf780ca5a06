import OjsSqs.Calls.Path
import OjsSqs.Events.Forwarding
import Mathlib.Logic.Function.Basic

/-! # The broker of job events

`PubSubBroker` fans events out to the channels of its subscriptions. A publish
holds the lock for reading, so it goes through the subscriptions next to other
publishes and to the subscribers' reads; a section under the write lock is one
step, and it waits for every publish. The channel of a subscription is closed
outside the lock by the call that has removed it. -/
namespace OjsSqs
open Calls

/-- An event in a channel, with the number of the `PublishJobEvent` it is from. -/
structure SentEvent where
  call : Nat
  event : JobEvent
deriving DecidableEq, Repr

/-- `subscription`: `ch` holds what was sent and not received, `closeOnce` says
that its function has run. A `none` is the filter `nil`. -/
structure Subscription where
  filter : Option (JobEvent → Bool) := none
  ch : List SentEvent := []
  closed : Bool := false
  closeOnce : Bool := false

/-- `sub.filter == nil || sub.filter(event)` -/
def Subscription.admits (sub : Subscription) (event : JobEvent) : Bool :=
  match sub.filter with
  | none => true
  | some filter => filter event

/-- The capacity of a subscription's channel. -/
def chCapacity : Nat := 64

inductive BrokerPanic where
  | sendOnClosedChannel
  | closeOfClosedChannel
deriving DecidableEq, Repr

/-- Subscriptions and publishes are numbered in the order they begin. -/
structure PubSubBroker where
  subs : List Nat := []
  /-- the channel `done` is closed -/
  done : Bool := false
  subscription : Nat → Subscription := fun _ => {}
  allocated : Nat := 0
  /-- the calls of an unsubscribe that have left the lock and not closed yet -/
  leaving : Nat → Nat := fun _ => 0
  /-- the calls of `Close` that have closed `done` and wait for the lock -/
  closing : Nat := 0
  begun : Nat := 0
  event : Nat → JobEvent := fun _ => { eventType := "", jobID := "" }
  /-- the publishes that hold the lock for reading -/
  reading : List Nat := []
  /-- the subscriptions a publish has still to go through -/
  todo : Nat → List Nat := fun _ => []
  panic : Option BrokerPanic := none

namespace PubSubBroker

def setSubscription (s : Nat) (sub : Subscription) (b : PubSubBroker) : PubSubBroker :=
  { b with subscription := Function.update b.subscription s sub }

/-- `sub.closeOnce.Do(func() { close(sub.ch) })` -/
def closeOnceDo (s : Nat) (b : PubSubBroker) : PubSubBroker :=
  let sub := b.subscription s
  if sub.closeOnce then b
  else if sub.closed then { b with panic := some .closeOfClosedChannel }
  else b.setSubscription s { sub with closeOnce := true, closed := true }

/-- One round of the loop of `PublishJobEvent`: the event is sent when the filter
admits it and the channel has room. -/
def offerTo (p s : Nat) (b : PubSubBroker) : PubSubBroker :=
  let sub := b.subscription s
  if sub.admits (b.event p) then
    if sub.closed then { b with panic := some .sendOnClosedChannel }
    else if sub.ch.length < chCapacity then
      b.setSubscription s { sub with ch := sub.ch ++ [⟨p, b.event p⟩] }
    else b
  else b

inductive Label where
  /-- `subscribe`: its section under the lock -/
  | subscribe (s : Nat) (filter : Option (JobEvent → Bool))
  /-- an unsubscribe: its section under the lock, and what follows it -/
  | unsubscribe (s : Nat)
  | closeChannel (s : Nat)
  /-- `Close`: what comes before the lock, and the section under it -/
  | closeDone
  | closeAll
  /-- `PublishJobEvent`: it takes the lock, goes through the map in any order,
  and releases the lock and returns -/
  | publish (p : Nat) (event : JobEvent)
  | offer (p s : Nat)
  | finish (p : Nat)
  /-- a subscriber reads its channel; `none` when it is closed and empty -/
  | receive (s : Nat) (m : Option SentEvent)

/-- What a step does, when it is possible. -/
def step (b : PubSubBroker) : Label → Option PubSubBroker
  | .subscribe s filter =>
    if b.reading = [] ∧ s = b.allocated then
      some { b.setSubscription s { filter := filter } with
        subs := s :: b.subs, allocated := b.allocated + 1 }
    else none
  | .unsubscribe s =>
    if b.reading = [] ∧ s < b.allocated then
      some { b with
        subs := b.subs.erase s
        leaving := Function.update b.leaving s (b.leaving s + 1) }
    else none
  | .closeChannel s =>
    if 0 < b.leaving s then
      some { b.closeOnceDo s with leaving := Function.update b.leaving s (b.leaving s - 1) }
    else none
  | .closeDone =>
    if b.done then some { b with panic := some .closeOfClosedChannel }
    else some { b with done := true, closing := b.closing + 1 }
  | .closeAll =>
    if b.reading = [] ∧ 0 < b.closing then
      some { b.subs.foldr (fun s b => b.closeOnceDo s) b with
        subs := [], closing := b.closing - 1 }
    else none
  | .publish p event =>
    if p = b.begun then
      some { b with
        begun := b.begun + 1
        event := Function.update b.event p event
        reading := p :: b.reading
        todo := Function.update b.todo p b.subs }
    else none
  | .offer p s =>
    if p ∈ b.reading ∧ s ∈ b.todo p then
      some { b.offerTo p s with todo := Function.update b.todo p ((b.todo p).erase s) }
    else none
  | .finish p =>
    if p ∈ b.reading ∧ b.todo p = [] then some { b with reading := b.reading.erase p } else none
  | .receive s m =>
    match (b.subscription s).ch with
    | x :: rest => if m = some x then some (b.setSubscription s { b.subscription s with ch := rest }) else none
    | [] => if (b.subscription s).closed ∧ m = none then some b else none

/-- The broker after the steps, from a new one on. -/
def after (ls : List Label) : Option PubSubBroker := ls.foldlM step {}

/-! ## What the steps so far say -/

/-- The call of `Close` that has begun. -/
def Label.isClose : Label → Bool
  | .closeDone => true
  | _ => false

/-- What a read of the subscriber has got. -/
def Label.received (s : Nat) : Label → Option SentEvent
  | .receive s' m => if s' = s then m else none
  | _ => none

def received (s : Nat) (ls : List Label) : List SentEvent := ls.filterMap (Label.received s)

/-- Whether the subscription stands after a step. -/
def Label.subscribed (s : Nat) (on : Bool) : Label → Bool
  | .subscribe s' _ => on || s' = s
  | .unsubscribe s' => on && s' ≠ s
  | .closeAll => false
  | _ => on

/-- Subscribed, and neither unsubscribed nor closed since. -/
def subscribed (s : Nat) (ls : List Label) : Bool := ls.foldl (Label.subscribed s) false

/-- The publish began while the subscription stood. -/
def WhileSubscribed (p s : Nat) : List Label → Prop :=
  Happened fun before l => (∃ event, l = .publish p event) ∧ subscribed s before = true

/-- The channel was full when the publish came to it. -/
def WhenFull (p s : Nat) : List Label → Prop :=
  Happened fun before l => l = .offer p s ∧
    ∃ b, after before = some b ∧ chCapacity ≤ (b.subscription s).ch.length

/-- The one publish returned before the other began. -/
def ReturnedFirst (p p' : Nat) : List Label → Prop :=
  Happened fun before l => (∃ event, l = .publish p' event) ∧ .finish p ∈ before

end PubSubBroker
end OjsSqs
