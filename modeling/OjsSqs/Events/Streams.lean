import OjsSqs.Atomic.Steps
import OjsSqs.Events.Connections
import OjsSqs.Grpc.Convert

/-! # Event streams of the gRPC server

A `StreamEvents` call subscribes to the events of one job, of one queue or to all
of them, filters what its channel gives it, and sends what is left with
keepalives in between. In every order of the steps of the streams, the publishers
and the other subscribers a stream sends the events it was asked for that come to
its channel, each once and in their order, and takes its subscription back. -/

namespace OjsSqs
open Calls

/-- The fields of a published `core.JobEvent` that neither the broker nor a filter
reads. -/
structure EventDetails where
  jobType : String := ""
  fromState : String := ""
  toState : String := ""
  progress : Int := 0
  message : String := ""
deriving DecidableEq, Repr

inductive Proto.EventValue where
  | text (s : String)
  | number (n : Int)
deriving DecidableEq, Repr

/-- `ojsv1.Event`; without entries `Data` is not set. -/
structure Proto.Event where
  id : String
  type : String
  jobId : String := ""
  jobType : String := ""
  queue : String := ""
  timestamp : Option Proto.Timestamp := none
  data : List (String × Proto.EventValue) := []
deriving DecidableEq, Repr

/-- `ojsv1.StreamEventsRequest` -/
structure StreamEventsRequest where
  jobId : String := ""
  queues : List String := []
  eventTypes : List String := []
deriving DecidableEq, Repr

namespace StreamEventsRequest

/-- The filter of the subscription: `SubscribeJob`, `SubscribeQueue` or `SubscribeAll`. -/
def filter (req : StreamEventsRequest) : Option (JobEvent → Bool) :=
  if req.jobId ≠ "" then some fun e => e.jobID == req.jobId
  else match req.queues with
    | [queue] => some fun e => e.queue == queue
    | _ => none

/-- The `queueFilter` and the `typeFilter` of the loop. -/
def passes (req : StreamEventsRequest) (event : JobEvent) : Bool :=
  (req.queues.isEmpty || req.queues.contains event.queue) &&
    (req.eventTypes.isEmpty || req.eventTypes.contains event.eventType)

/-- What the request asks for. -/
def wants (req : StreamEventsRequest) (event : JobEvent) : Prop :=
  (req.jobId = "" ∨ event.jobID = req.jobId) ∧ (req.queues = [] ∨ event.queue ∈ req.queues) ∧
    (req.eventTypes = [] ∨ event.eventType ∈ req.eventTypes)

instance (req : StreamEventsRequest) (event : JobEvent) : Decidable (req.wants event) :=
  inferInstanceAs (Decidable (_ ∧ _ ∧ _))

/-- The subscription and the loop together let through what the request asks for. -/
theorem wants_iff {req : StreamEventsRequest} {event : JobEvent} :
    req.wants event ↔ Subscription.admits { filter := req.filter } event = true ∧
      req.passes event = true := by
  have hpasses : req.passes event = true ↔ (req.queues = [] ∨ event.queue ∈ req.queues) ∧
      (req.eventTypes = [] ∨ event.eventType ∈ req.eventTypes) := by
    simp [passes]
  rw [hpasses, wants]
  unfold filter Subscription.admits
  by_cases hjob : req.jobId = ""
  · simp only [hjob, ne_eq, not_true_eq_false, if_false, true_or, true_and]
    cases hq : req.queues with
    | nil => simp
    | cons queue rest =>
      cases rest with
      | nil => simp
      | cons queue' rest => simp
  · simp [hjob]

end StreamEventsRequest

def progressData (progress : Int) : List (String × Proto.EventValue) :=
  if 0 < progress then [("progress", .number progress)] else []

def textData (key text : String) : List (String × Proto.EventValue) :=
  if text ≠ "" then [(key, .text text)] else []

/-- `jobEventToProto`, with the identifier it makes. -/
def jobEventToProto (cfg : Config) (uuid : String) (e : JobEvent) (details : EventDetails) :
    Proto.Event where
  id := "evt_" ++ uuid
  type := e.eventType
  jobId := e.jobID
  jobType := details.jobType
  queue := e.queue
  timestamp := if e.timestamp ≠ "" then (cfg.parseRFC3339 e.timestamp).map Proto.newTimestamp else none
  data := textData "from" details.fromState ++ textData "to" details.toState ++
    progressData details.progress ++ textData "message" details.message

def keepaliveEvent (now : Time) : Proto.Event where
  id := "evt_keepalive"
  type := "stream.keepalive"
  timestamp := some (Proto.newTimestamp now)

/-! ## The streams -/

/-- Where a `StreamEvents` is: in its `select`, with an event to send, or in the
`unsub` that it has deferred. -/
inductive StreamPc where
  | select
  | sending (m : SentEvent) (event : Proto.Event)
  | leaving
  | closing
  | returned
deriving DecidableEq, Repr

/-- What was sent on a stream, with the event it was made from. -/
structure StreamWritten where
  source : Option SentEvent
  event : Proto.Event
deriving DecidableEq, Repr

/-- One call of `StreamEvents`; `failed` is the event whose `Send` has failed. -/
structure EventStream where
  req : StreamEventsRequest
  s : Nat
  pc : StreamPc := .select
  out : List StreamWritten := []
  failed : Option SentEvent := none

structure EventService where
  broker : PubSubBroker := {}
  stream : Nat → Option EventStream := fun _ => none
  /-- the stream that a subscription was made for -/
  owner : Nat → Option Nat := fun _ => none

/-- Where the loop is after a read of its channel. -/
def afterRead (cfg : Config) (details : Nat → EventDetails) (req : StreamEventsRequest)
    (uuid : String) : Option SentEvent → StreamPc
  | none => .leaving
  | some m =>
    if req.passes m.event then .sending m (jobEventToProto cfg uuid m.event (details m.call))
    else .select

namespace EventService

def setStream (c : Nat) (k : EventStream) (st : EventService) : EventService :=
  { st with stream := Function.update st.stream c (some k) }

inductive Label where
  /-- a step of the broker by others: its publishers, its other subscribers, and
  the server when it closes it -/
  | other (l : PubSubBroker.Label)
  | subscribe (c s : Nat) (req : StreamEventsRequest)
  /-- the cases of the `select`: the channel, the ticker and the context -/
  | receive (c s : Nat) (m : Option SentEvent) (uuid : String)
  | keepalive (c : Nat) (now : Time) (sent : Bool)
  | expire (c : Nat)
  | send (c : Nat) (sent : Bool)
  /-- `unsub`: its section under the broker's lock, and the close after it -/
  | unsubscribe (c s : Nat)
  | close (c s : Nat)

/-- Whether others may take the step: they unsubscribe, close and read their own
subscriptions, and the server closes the broker once. -/
def othersMay (st : EventService) : PubSubBroker.Label → Bool
  | .unsubscribe s | .closeChannel s | .receive s _ => (st.owner s).isNone
  | .closeDone => !st.broker.done
  | _ => true

/-- A step of the broker. -/
def act (st : EventService) (l : PubSubBroker.Label) : Option EventService :=
  (st.broker.step l).map fun b => { st with broker := b }

/-- A step of a stream that is there. -/
def onStream (st : EventService) (c : Nat) (f : EventStream → Option EventService) :
    Option EventService :=
  (st.stream c).bind f

variable (cfg : Config) (details : Nat → EventDetails)

/-- What a step does, when it is possible. -/
def step (st : EventService) : Label → Option EventService
  | .other l => if st.othersMay l then st.act l else none
  | .subscribe c s req =>
    if (st.stream c).isNone then
      (st.act (.subscribe s req.filter)).map fun st =>
        { st.setStream c { req := req, s := s } with owner := Function.update st.owner s (some c) }
    else none
  | .receive c s m uuid => st.onStream c fun k =>
    if k.pc = .select ∧ s = k.s then
      (st.act (.receive s m)).map fun st =>
        st.setStream c { k with pc := afterRead cfg details k.req uuid m }
    else none
  | .keepalive c now sent => st.onStream c fun k =>
    if k.pc = .select then
      some (st.setStream c (if sent then { k with out := k.out ++ [⟨none, keepaliveEvent now⟩] }
        else { k with pc := .leaving }))
    else none
  | .expire c => st.onStream c fun k =>
    if k.pc = .select then some (st.setStream c { k with pc := .leaving }) else none
  | .send c sent => st.onStream c fun k =>
    match k.pc with
    | .sending m event =>
      some (st.setStream c (if sent then { k with pc := .select, out := k.out ++ [⟨some m, event⟩] }
        else { k with pc := .leaving, failed := some m }))
    | _ => none
  | .unsubscribe c s => st.onStream c fun k =>
    if k.pc = .leaving ∧ s = k.s then
      (st.act (.unsubscribe s)).map fun st => st.setStream c { k with pc := .closing }
    else none
  | .close c s => st.onStream c fun k =>
    if k.pc = .closing ∧ s = k.s then
      (st.act (.closeChannel s)).map fun st => st.setStream c { k with pc := .returned }
    else none

/-- The step of the broker, if it is one. -/
def Label.ofBroker : Label → Option PubSubBroker.Label
  | .other l => some l
  | .subscribe _ s req => some (.subscribe s req.filter)
  | .receive _ s m _ => some (.receive s m)
  | .unsubscribe _ s => some (.unsubscribe s)
  | .close _ s => some (.closeChannel s)
  | _ => none

/-- The broker's steps. -/
def brokerLabels (ls : List Label) : List PubSubBroker.Label := ls.filterMap Label.ofBroker

theorem brokerLabels_append (ls : List Label) (l : Label) :
    brokerLabels (ls ++ [l]) = brokerLabels ls ++ l.ofBroker.toList := by
  unfold brokerLabels
  rw [List.filterMap_append]
  cases hl : l.ofBroker with
  | none => simp [hl]
  | some l' => simp [hl]

/-! ## What holds of a stream -/

end EventService

/-- The events that were sent. -/
def EventStream.sent (k : EventStream) : List SentEvent := k.out.filterMap (·.source)

/-- The event that was read and not sent. -/
def EventStream.unsent (k : EventStream) : List SentEvent :=
  match k.pc with
  | .sending m _ => [m]
  | _ => k.failed.toList

/-- The event is what the stream makes of the one it was sent. -/
def Converts (cfg : Config) (details : Nat → EventDetails) (m : SentEvent) (event : Proto.Event) :
    Prop :=
  ∃ uuid, event = jobEventToProto cfg uuid m.event (details m.call)

/-- The invariant of one stream. -/
structure Streams (cfg : Config) (details : Nat → EventDetails) (bl : List PubSubBroker.Label)
    (b : PubSubBroker) (k : EventStream) : Prop where
  subscribed : PubSubBroker.Label.subscribe k.s k.req.filter ∈ bl
  passed : k.sent ++ k.unsent = (PubSubBroker.received k.s bl).filter fun m => k.req.passes m.event
  wrote : ∀ x ∈ k.out, ∀ m, x.source = some m → Converts cfg details m x.event
  keepalive : ∀ x ∈ k.out, x.source = none → ∃ now, x.event = keepaliveEvent now
  sending : ∀ m event, k.pc = .sending m event → Converts cfg details m event
  failed : k.pc = .select ∨ (∃ m event, k.pc = .sending m event) → k.failed = none
  out : k.pc = .closing ∨ k.pc = .returned → k.s ∉ b.subs
  closed : k.pc = .returned → (b.subscription k.s).closed = true

section
variable {cfg : Config} {details : Nat → EventDetails} {bl : List PubSubBroker.Label}
  {b b' : PubSubBroker} {k : EventStream} {l : PubSubBroker.Label}

namespace Streams

theorem lt (h : Streams cfg details bl b k) (hb : PubSubBroker.SoundAfter bl b) :
    k.s < b.allocated := (hb.stands.filter k.s _ h.subscribed).1

/-- A step of the broker at which the stream reads nothing. -/
theorem other (h : Streams cfg details bl b k) (hb : PubSubBroker.SoundAfter bl b)
    (hs : b.step l = some b') (hl : l.received k.s = none) :
    Streams cfg details (bl ++ [l]) b' k := by
  have hlt := h.lt hb
  constructor
  · exact List.mem_append_left _ h.subscribed
  · rw [PubSubBroker.received_snoc, hl]
    simpa using h.passed
  · exact h.wrote
  · exact h.keepalive
  · exact h.sending
  · exact h.failed
  · intro hpc hm
    obtain hm | ⟨f, rfl⟩ := PubSubBroker.step_subs hs hm
    · exact h.out hpc hm
    · obtain ⟨⟨-, he⟩, -⟩ := Option.ite_none_right_eq_some.mp hs
      rw [he] at hlt
      exact absurd hlt (Nat.lt_irrefl _)
  · intro hpc
    exact hb.closed hs hlt (h.closed hpc)

/-- A stream that has just begun. -/
theorem begin (hb : PubSubBroker.SoundAfter bl b) {req : StreamEventsRequest} {s : Nat}
    (hs : b.step (.subscribe s req.filter) = some b') :
    Streams cfg details (bl ++ [.subscribe s req.filter]) b' { req := req, s := s } := by
  obtain ⟨⟨-, rfl⟩, -⟩ := Option.ite_none_right_eq_some.mp hs
  have hnone := (List.append_eq_nil_iff.mp (hb.stands.unallocated _ (Nat.le_refl _))).1
  constructor
  · simp
  · rw [PubSubBroker.received_snoc, hnone]
    rfl
  · intro x hx
    cases hx
  · intro x hx
    cases hx
  · intro m event hpc
    cases hpc
  · intro _
    rfl
  · rintro (hpc | hpc) <;> cases hpc
  · intro hpc
    cases hpc

/-- A read of the channel, and the filters of the loop. -/
theorem receive (h : Streams cfg details bl b k) (hpc : k.pc = .select) (m : Option SentEvent)
    (uuid : String) : Streams cfg details (bl ++ [.receive k.s m]) b'
      { k with pc := afterRead cfg details k.req uuid m } := by
  have hnone : k.failed = none := h.failed (.inl hpc)
  have hpassed : k.sent = (PubSubBroker.received k.s bl).filter fun m => k.req.passes m.event := by
    rw [← h.passed]
    simp [EventStream.unsent, hpc, hnone]
  have hread : PubSubBroker.Label.received k.s (.receive k.s m) = m := by
    simp [PubSubBroker.Label.received]
  constructor
  · exact List.mem_append_left _ h.subscribed
  · rw [PubSubBroker.received_snoc, hread, List.filter_append, ← hpassed]
    cases m with
    | none => simp [EventStream.sent, EventStream.unsent, afterRead, hnone]
    | some m =>
      by_cases hp : k.req.passes m.event = true
      · simp [EventStream.sent, EventStream.unsent, afterRead, hp]
      · simp [EventStream.sent, EventStream.unsent, afterRead, hp, hnone]
  · exact h.wrote
  · exact h.keepalive
  · intro x event hx
    cases m with
    | none => cases hx
    | some m =>
      by_cases hp : k.req.passes m.event = true
      · simp only [afterRead, hp, if_true] at hx
        cases hx
        exact ⟨uuid, rfl⟩
      · simp [afterRead, hp] at hx
  · intro _
    exact hnone
  · intro hx
    cases m with
    | none => rcases hx with hx | hx <;> cases hx
    | some m =>
      by_cases hp : k.req.passes m.event = true
      · simp [afterRead, hp] at hx
      · simp [afterRead, hp] at hx
  · intro hx
    cases m with
    | none => cases hx
    | some m =>
      by_cases hp : k.req.passes m.event = true
      · simp [afterRead, hp] at hx
      · simp [afterRead, hp] at hx

/-- The context has ended, or a keepalive was not sent. -/
theorem leave (h : Streams cfg details bl b k) (hpc : k.pc = .select) :
    Streams cfg details bl b { k with pc := .leaving } := by
  have hnone : k.failed = none := h.failed (.inl hpc)
  constructor
  · exact h.subscribed
  · rw [← h.passed]
    simp [EventStream.sent, EventStream.unsent, hpc, hnone]
  · exact h.wrote
  · exact h.keepalive
  · intro m event hx
    cases hx
  · intro _
    exact hnone
  · rintro (hx | hx) <;> cases hx
  · intro hx
    cases hx

theorem keepsAlive (h : Streams cfg details bl b k) (hpc : k.pc = .select) (now : Time) :
    Streams cfg details bl b { k with out := k.out ++ [⟨none, keepaliveEvent now⟩] } := by
  constructor
  · exact h.subscribed
  · rw [← h.passed]
    simp [EventStream.sent, EventStream.unsent, hpc]
  · intro x hx m hm
    obtain hx | hx := List.mem_append.mp hx
    · exact h.wrote x hx m hm
    · rw [List.mem_singleton.mp hx] at hm
      cases hm
  · intro x hx hm
    obtain hx | hx := List.mem_append.mp hx
    · exact h.keepalive x hx hm
    · rw [List.mem_singleton.mp hx]
      exact ⟨now, rfl⟩
  · exact h.sending
  · exact h.failed
  · exact h.out
  · exact h.closed

theorem sends (h : Streams cfg details bl b k) {m : SentEvent} {event : Proto.Event}
    (hpc : k.pc = .sending m event) :
    Streams cfg details bl b { k with pc := .select, out := k.out ++ [⟨some m, event⟩] } := by
  have hnone : k.failed = none := h.failed (.inr ⟨m, event, hpc⟩)
  constructor
  · exact h.subscribed
  · rw [← h.passed]
    simp [EventStream.sent, EventStream.unsent, hpc, hnone]
  · intro x hx m' hm
    obtain hx | hx := List.mem_append.mp hx
    · exact h.wrote x hx m' hm
    · rw [List.mem_singleton.mp hx] at hm ⊢
      cases hm
      exact h.sending m event hpc
  · intro x hx hm
    obtain hx | hx := List.mem_append.mp hx
    · exact h.keepalive x hx hm
    · rw [List.mem_singleton.mp hx] at hm
      cases hm
  · intro m' event' hx
    cases hx
  · intro _
    exact hnone
  · rintro (hx | hx) <;> cases hx
  · intro hx
    cases hx

theorem fails (h : Streams cfg details bl b k) {m : SentEvent} {event : Proto.Event}
    (hpc : k.pc = .sending m event) :
    Streams cfg details bl b { k with pc := .leaving, failed := some m } := by
  constructor
  · exact h.subscribed
  · rw [← h.passed]
    simp [EventStream.sent, EventStream.unsent, hpc]
  · exact h.wrote
  · exact h.keepalive
  · intro m' event' hx
    cases hx
  · rintro (hx | ⟨m', event', hx⟩) <;> cases hx
  · rintro (hx | hx) <;> cases hx
  · intro hx
    cases hx

/-- `unsub` takes the subscription out of the map. -/
theorem unsubscribe (h : Streams cfg details bl b k) (hb : PubSubBroker.SoundAfter bl b)
    (hpc : k.pc = .leaving) (hs : b.step (.unsubscribe k.s) = some b') :
    Streams cfg details (bl ++ [.unsubscribe k.s]) b' { k with pc := .closing } := by
  have h' := h.other hb hs rfl
  constructor
  · exact h'.subscribed
  · rw [← h'.passed]
    simp [EventStream.sent, EventStream.unsent, hpc]
  · exact h'.wrote
  · exact h'.keepalive
  · intro m event hx
    cases hx
  · rintro (hx | ⟨m, event, hx⟩) <;> cases hx
  · intro _
    exact hb.tidy.unsubscribed hs
  · intro hx
    cases hx

/-- And closes its channel. -/
theorem close (h : Streams cfg details bl b k) (hb : PubSubBroker.SoundAfter bl b)
    (hpc : k.pc = .closing) (hs : b.step (.closeChannel k.s) = some b') :
    Streams cfg details (bl ++ [.closeChannel k.s]) b' { k with pc := .returned } := by
  have h' := h.other hb hs rfl
  constructor
  · exact h'.subscribed
  · rw [← h'.passed]
    simp [EventStream.sent, EventStream.unsent, hpc]
  · exact h'.wrote
  · exact h'.keepalive
  · intro m event hx
    cases hx
  · rintro (hx | ⟨m, event, hx⟩) <;> cases hx
  · intro _
    exact h'.out (.inl hpc)
  · intro _
    exact hb.tidy.closes hs

end Streams

end

namespace EventService

/-- All streams. -/
structure Streaming (cfg : Config) (details : Nat → EventDetails) (bl : List PubSubBroker.Label)
    (st : EventService) : Prop where
  broker : PubSubBroker.SoundAfter bl st.broker
  streams : ∀ c k, st.stream c = some k → Streams cfg details bl st.broker k
  owner : ∀ c k, st.stream c = some k → st.owner k.s = some c
  owned : ∀ s c, st.owner s = some c → ∃ k, st.stream c = some k ∧ k.s = s

section
variable {cfg : Config} {details : Nat → EventDetails} {bl : List PubSubBroker.Label}
  {st st' : EventService} {b' : PubSubBroker} {c : Nat} {k k' : EventStream}
  {l : PubSubBroker.Label}

theorem streaming_new : Streaming cfg details [] {} where
  broker := PubSubBroker.sound_new
  streams c k h := by cases h
  owner c k h := by cases h
  owned s c h := by cases h

theorem setStream_cases {x : Nat} {kx : EventStream} (hx : (st.setStream c k').stream x = some kx) :
    x = c ∧ kx = k' ∨ x ≠ c ∧ st.stream x = some kx := by
  unfold EventService.setStream at hx
  by_cases hxc : x = c
  · subst hxc
    left
    simpa [eq_comm] using hx
  · right
    exact ⟨hxc, by simpa [hxc] using hx⟩

/-- One stream changes, and keeps its subscription. -/
theorem Streaming.setStream {b' : PubSubBroker} {bl' : List PubSubBroker.Label}
    (h : Streaming cfg details bl st) (hb : PubSubBroker.SoundAfter bl' b') (hk : st.stream c = some k)
    (hk' : Streams cfg details bl' b' k') (hsame : k'.s = k.s)
    (hothers : ∀ x kx, x ≠ c → st.stream x = some kx → Streams cfg details bl' b' kx) :
    Streaming cfg details bl' ({ st with broker := b' }.setStream c k') := by
  constructor
  · exact hb
  · intro x kx hx
    obtain ⟨rfl, rfl⟩ | ⟨hxc, hx⟩ := setStream_cases hx
    · exact hk'
    · exact hothers x kx hxc hx
  · intro x kx hx
    obtain ⟨rfl, rfl⟩ | ⟨hxc, hx⟩ := setStream_cases hx
    · rw [hsame]
      exact h.owner x k hk
    · exact h.owner x kx hx
  · intro s x ho
    obtain ⟨kx, hx, hsx⟩ := h.owned s x ho
    by_cases hxc : x = c
    · subst hxc
      rw [hk] at hx
      cases hx
      exact ⟨k', Function.update_self .., hsame.trans hsx⟩
    · exact ⟨kx, (Function.update_of_ne hxc _ _).trans hx, hsx⟩

/-- The broker takes no step. -/
theorem Streaming.goOn (h : Streaming cfg details bl st) (hk : st.stream c = some k)
    (hk' : Streams cfg details bl st.broker k') (hsame : k'.s = k.s) :
    Streaming cfg details bl (st.setStream c k') :=
  h.setStream h.broker hk hk' hsame fun x kx _ => h.streams x kx

/-- A step of the broker at which one stream, if any, reads. -/
theorem Streaming.actOn (h : Streaming cfg details bl st) (hs : st.broker.step l = some b')
    (hclose : l.isClose = true → st.broker.done = false) (hk : st.stream c = some k)
    (hk' : Streams cfg details (bl ++ [l]) b' k') (hsame : k'.s = k.s)
    (hl : ∀ s, s ≠ k.s → l.received s = none) :
    Streaming cfg details (bl ++ [l]) ({ st with broker := b' }.setStream c k') := by
  refine h.setStream (h.broker.step hs hclose) hk hk' hsame ?_
  intro x kx hxc hx
  refine (h.streams x kx hx).other h.broker hs (hl kx.s ?_)
  intro he
  have ho := h.owner x kx hx
  rw [he, h.owner c k hk] at ho
  exact hxc (Option.some.inj ho).symm

/-- A step of the broker that others take. -/
theorem Streaming.actOther (h : Streaming cfg details bl st) (hs : st.broker.step l = some b')
    (hmay : st.othersMay l = true) : Streaming cfg details (bl ++ [l]) { st with broker := b' } := by
  have hclose : l.isClose = true → st.broker.done = false := by
    intro hl
    cases l with
    | closeDone => simpa [othersMay] using hmay
    | _ => cases hl
  constructor
  · exact h.broker.step hs hclose
  · intro c k hk
    refine (h.streams c k hk).other h.broker hs ?_
    cases l with
    | receive s m =>
      have hne : s ≠ k.s := by
        rintro rfl
        simp [othersMay, h.owner c k hk] at hmay
      simp [PubSubBroker.Label.received, hne]
    | _ => rfl
  · exact h.owner
  · exact h.owned

/-- A stream begins. -/
theorem Streaming.begin (h : Streaming cfg details bl st) (hnone : st.stream c = none) {s : Nat}
    {req : StreamEventsRequest} (hs : st.broker.step (.subscribe s req.filter) = some b') :
    Streaming cfg details (bl ++ [.subscribe s req.filter])
      { { st with broker := b' }.setStream c { req := req, s := s } with
        owner := Function.update st.owner s (some c) } := by
  have hs' := hs
  obtain ⟨⟨-, rfl⟩, -⟩ := Option.ite_none_right_eq_some.mp hs'
  have hne : ∀ x kx, st.stream x = some kx → kx.s ≠ st.broker.allocated := by
    intro x kx hx
    exact Nat.ne_of_lt ((h.streams x kx hx).lt h.broker)
  constructor
  · exact h.broker.step hs (by simp [PubSubBroker.Label.isClose])
  · intro x kx hx
    obtain ⟨rfl, rfl⟩ | ⟨-, hx⟩ := setStream_cases hx
    · exact Streams.begin h.broker hs
    · exact (h.streams x kx hx).other h.broker hs rfl
  · intro x kx hx
    obtain ⟨rfl, rfl⟩ | ⟨-, hx⟩ := setStream_cases hx
    · exact Function.update_self ..
    · exact (Function.update_of_ne (hne x kx hx) _ _).trans (h.owner x kx hx)
  · intro s x ho
    by_cases hsb : s = st.broker.allocated
    · subst hsb
      simp only [Function.update_self, Option.some.injEq] at ho
      subst ho
      exact ⟨_, Function.update_self .., rfl⟩
    · simp only [Function.update_of_ne hsb] at ho
      obtain ⟨kx, hx, hsx⟩ := h.owned s x ho
      have hxc : x ≠ c := by
        intro he
        rw [he, hnone] at hx
        cases hx
      exact ⟨kx, (Function.update_of_ne hxc _ _).trans hx, hsx⟩

theorem act_eq_some (h : st.act l = some st') :
    ∃ b', st.broker.step l = some b' ∧ st' = { st with broker := b' } := by
  obtain ⟨b', hb, hst⟩ := Option.map_eq_some_iff.mp h
  exact ⟨b', hb, hst.symm⟩

/-- **One step.** -/
theorem Streaming.step (h : Streaming cfg details bl st) {l : Label}
    (hs : st.step cfg details l = some st') :
    Streaming cfg details (bl ++ l.ofBroker.toList) st' := by
  cases l with
  | other l =>
    obtain ⟨hmay, hs⟩ := Option.ite_none_right_eq_some.mp hs
    obtain ⟨b', hb, rfl⟩ := act_eq_some hs
    exact h.actOther hb hmay
  | subscribe c s req =>
    obtain ⟨hnone, hs⟩ := Option.ite_none_right_eq_some.mp hs
    obtain ⟨st₁, hact, rfl⟩ := Option.map_eq_some_iff.mp hs
    obtain ⟨b', hb, rfl⟩ := act_eq_some hact
    exact h.begin (by simpa using hnone) hb
  | receive c s m uuid =>
    obtain ⟨k, hk, hs⟩ := Option.bind_eq_some_iff.mp hs
    obtain ⟨⟨hpc, rfl⟩, hs⟩ := Option.ite_none_right_eq_some.mp hs
    obtain ⟨st₁, hact, rfl⟩ := Option.map_eq_some_iff.mp hs
    obtain ⟨b', hb, rfl⟩ := act_eq_some hact
    refine h.actOn hb (by simp [PubSubBroker.Label.isClose]) hk
      ((h.streams c k hk).receive hpc m uuid) rfl ?_
    intro s hne
    simp [PubSubBroker.Label.received, hne.symm]
  | keepalive c now sent =>
    obtain ⟨k, hk, hs⟩ := Option.bind_eq_some_iff.mp hs
    obtain ⟨hpc, hs⟩ := Option.ite_none_right_eq_some.mp hs
    cases hs
    simp only [Label.ofBroker, Option.toList_none, List.append_nil]
    cases sent with
    | true => exact h.goOn hk ((h.streams c k hk).keepsAlive hpc now) rfl
    | false => exact h.goOn hk ((h.streams c k hk).leave hpc) rfl
  | expire c =>
    obtain ⟨k, hk, hs⟩ := Option.bind_eq_some_iff.mp hs
    obtain ⟨hpc, hs⟩ := Option.ite_none_right_eq_some.mp hs
    cases hs
    simp only [Label.ofBroker, Option.toList_none, List.append_nil]
    exact h.goOn hk ((h.streams c k hk).leave hpc) rfl
  | send c sent =>
    obtain ⟨k, hk, hs⟩ := Option.bind_eq_some_iff.mp hs
    simp only [Label.ofBroker, Option.toList_none, List.append_nil]
    split at hs
    · rename_i m event hpc
      cases hs
      cases sent with
      | true => exact h.goOn hk ((h.streams c k hk).sends hpc) rfl
      | false => exact h.goOn hk ((h.streams c k hk).fails hpc) rfl
    · cases hs
  | unsubscribe c s =>
    obtain ⟨k, hk, hs⟩ := Option.bind_eq_some_iff.mp hs
    obtain ⟨⟨hpc, rfl⟩, hs⟩ := Option.ite_none_right_eq_some.mp hs
    obtain ⟨st₁, hact, rfl⟩ := Option.map_eq_some_iff.mp hs
    obtain ⟨b', hb, rfl⟩ := act_eq_some hact
    exact h.actOn hb (by simp [PubSubBroker.Label.isClose]) hk
      ((h.streams c k hk).unsubscribe h.broker hpc hb) rfl (fun s _ => rfl)
  | close c s =>
    obtain ⟨k, hk, hs⟩ := Option.bind_eq_some_iff.mp hs
    obtain ⟨⟨hpc, rfl⟩, hs⟩ := Option.ite_none_right_eq_some.mp hs
    obtain ⟨st₁, hact, rfl⟩ := Option.map_eq_some_iff.mp hs
    obtain ⟨b', hb, rfl⟩ := act_eq_some hact
    exact h.actOn hb (by simp [PubSubBroker.Label.isClose]) hk
      ((h.streams c k hk).close h.broker hpc hb) rfl (fun s _ => rfl)

end

/-! ## What a stream sends -/

/-- The runs of the service. -/
abbrev Runs (cfg : Config) (details : Nat → EventDetails) : List Label → EventService → Prop :=
  Path (fun st l st' => st.step cfg details l = some st') {}

/-- What a stream has sent after a run, and where its subscription is. -/
structure Streamed (cfg : Config) (details : Nat → EventDetails) (ls : List Label)
    (st : EventService) (k : EventStream) : Prop where
  /-- in the order of the channel, every event it was asked for, but for one that it is sending or
  could not send -/
  passed : k.sent ++ k.unsent =
    (PubSubBroker.received k.s (brokerLabels ls)).filter fun m => k.req.wants m.event
  once : (k.sent.map (·.call)).Nodup
  sound : ∀ m ∈ k.sent, k.req.wants m.event ∧
    PubSubBroker.Label.publish m.call m.event ∈ brokerLabels ls ∧
    PubSubBroker.WhileSubscribed m.call k.s (brokerLabels ls)
  /-- an event whose publish has returned is lost when the channel was full, or else is still in it
  or on its way -/
  complete : ∀ m, PubSubBroker.Label.publish m.call m.event ∈ brokerLabels ls →
    PubSubBroker.Label.finish m.call ∈ brokerLabels ls →
    PubSubBroker.WhileSubscribed m.call k.s (brokerLabels ls) → k.req.wants m.event →
    ¬ PubSubBroker.WhenFull m.call k.s (brokerLabels ls) →
    m ∈ k.sent ∨ m ∈ k.unsent ∨ m ∈ (st.broker.subscription k.s).ch
  /-- and what is sent is made of such an event, or is a keepalive -/
  wrote : ∀ x ∈ k.out, match x.source with
    | some m => Converts cfg details m x.event
    | none => ∃ now, x.event = keepaliveEvent now
  released : k.pc = .returned →
    k.s ∉ st.broker.subs ∧ (st.broker.subscription k.s).closed = true

section
variable {cfg : Config} {details : Nat → EventDetails} {ls : List Label} {st : EventService}

theorem run_streaming (hr : EventService.Runs cfg details ls st) :
    Streaming cfg details (brokerLabels ls) st := by
  induction hr with
  | nil => exact streaming_new
  | snoc _ hs ih =>
    rw [brokerLabels_append]
    exact ih.step hs

theorem Streaming.streamed (h : Streaming cfg details (brokerLabels ls) st) {c : Nat}
    {k : EventStream} (hk : st.stream c = some k) : Streamed cfg details ls st k := by
  have hkept := h.streams c k hk
  have hdelivered := (h.broker.arrivals k.s).delivered h.broker.publishes h.broker.stands
  have hadmits : ∀ m ∈ PubSubBroker.received k.s (brokerLabels ls),
      Subscription.admits { filter := k.req.filter } m.event = true := by
    intro m hm
    obtain ⟨-, -, ⟨f, hf, ha⟩, -⟩ := hdelivered.sound m hm
    have hsame : f = k.req.filter :=
      (h.broker.stands.filter k.s f hf).2.symm.trans
        (h.broker.stands.filter k.s _ hkept.subscribed).2
    exact hsame ▸ ha
  have hpassed : k.sent ++ k.unsent = (PubSubBroker.received k.s (brokerLabels ls)).filter
      fun m => k.req.wants m.event := by
    rw [hkept.passed]
    refine List.filter_congr ?_
    intro m hm
    rw [Bool.eq_iff_iff, decide_eq_true_eq, StreamEventsRequest.wants_iff]
    simp [hadmits m hm]
  have hsub : k.sent.Sublist (PubSubBroker.received k.s (brokerLabels ls)) := by
    refine (List.sublist_append_left k.sent k.unsent).trans ?_
    rw [hpassed]
    exact List.filter_sublist
  constructor
  · exact hpassed
  · exact (hsub.map (·.call)).nodup hdelivered.once
  · intro m hm
    have hm' : m ∈ k.sent ++ k.unsent := List.mem_append_left _ hm
    rw [hpassed, List.mem_filter] at hm'
    obtain ⟨hpub, hstood, -⟩ := hdelivered.sound m hm'.1
    exact ⟨of_decide_eq_true hm'.2, hpub, hstood⟩
  · intro m hpub hfin hstood hwants hfull
    by_cases hch : m ∈ (st.broker.subscription k.s).ch
    · exact .inr (.inr hch)
    · have hm := hdelivered.complete m hpub hfin hstood
        ⟨_, hkept.subscribed, (StreamEventsRequest.wants_iff.mp hwants).1⟩ hfull hch
      have hsent : m ∈ k.sent ++ k.unsent := by
        rw [hpassed]
        exact List.mem_filter.mpr ⟨hm, decide_eq_true hwants⟩
      exact (List.mem_append.mp hsent).imp_right .inl
  · intro x hx
    cases hsource : x.source with
    | some m => exact hkept.wrote x hx m hsource
    | none => exact hkept.keepalive x hx hsource
  · intro hpc
    exact ⟨hkept.out (.inr hpc), hkept.closed hpc⟩

/-- **Streams send what they were asked for.** In every order of the steps of the streams, the
publishers and the other subscribers nothing panics, and each stream sends the events of its request
that come to its channel and nothing else. -/
theorem streams_send (hr : EventService.Runs cfg details ls st) :
    st.broker.panic = none ∧ ∀ c k, st.stream c = some k → Streamed cfg details ls st k := by
  have h := run_streaming hr
  exact ⟨h.broker.panic, fun c k hk => h.streamed hk⟩

end

/-- A stream of two queues gets one event, and misses one of another queue. -/
def twoQueues : List Label :=
  let done : JobEvent := { eventType := "job.completed", jobID := "j1", queue := "mail" }
  let other : JobEvent := { eventType := "job.completed", jobID := "j2", queue := "video" }
  [.subscribe 0 0 { queues := ["mail", "default"], eventTypes := ["job.completed"] },
    .other (.publish 0 done), .other (.publish 1 other), .other (.offer 1 0), .other (.offer 0 0),
    .other (.finish 0), .receive 0 0 (some ⟨1, other⟩) "", .receive 0 0 (some ⟨0, done⟩) "u1",
    .send 0 true, .keepalive 0 0 true, .expire 0, .other (.finish 1), .unsubscribe 0 0, .close 0 0]

theorem streams_send_two : ∃ st k, st.broker.panic = none ∧ st.stream 0 = some k ∧
    k.pc = .returned ∧ k.out.map (·.event.type) = ["job.completed", "stream.keepalive"] ∧
    Streamed demo (fun _ => { jobType := "mail.send" }) twoQueues st k := by
  have hrun : ∃ st k, twoQueues.foldlM (step demo fun _ => { jobType := "mail.send" }) {} = some st ∧
      st.stream 0 = some k ∧ k.pc = .returned ∧
      k.out.map (·.event.type) = ["job.completed", "stream.keepalive"] :=
    ⟨_, _, rfl, rfl, rfl, rfl⟩
  obtain ⟨st, k, hst, hk, hend, hout⟩ := hrun
  obtain ⟨hpanic, hall⟩ := streams_send (Path.of_foldlM hst)
  exact ⟨st, k, hpanic, hk, hend, hout, hall 0 k hk⟩

end EventService
end OjsSqs
