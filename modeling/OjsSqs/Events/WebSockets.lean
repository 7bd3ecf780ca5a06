import OjsSqs.Events.Broker

/-! # The WebSocket clients of the broker

`WSHandler.Handle` runs once for each connection: it reads the messages of the
client, subscribes and unsubscribes at the broker, and takes back what is left
when the connection breaks. Each subscription has a goroutine that forwards its
events. All of them, the publishes and the other subscribers of the broker take
their steps in any order. -/
namespace OjsSqs
open Calls

/-- `wsMessage` -/
structure WsMessage where
  action : String := ""
  channel : String := ""
deriving DecidableEq, Repr

/-- `wsSubscription`: `cancel` unsubscribes the broker's subscription `s`. -/
structure WsSubscription where
  channel : String
  s : Nat
deriving DecidableEq, Repr

/-- `wsResponse`, with its other fields. -/
structure WsFrame extends WsResponse where
  code : String := ""
  message : String := ""
deriving DecidableEq, Repr

/-- A response that carries no event. -/
def WsFrame.reply (type channel code message : String) : WsFrame :=
  { type, channel, event := "", data := "", id := "", timestamp := "", code, message }

def WsFrame.subscribed (channel : String) : WsFrame := .reply "subscribed" channel "" ""
def WsFrame.unsubscribed (channel : String) : WsFrame := .reply "unsubscribed" channel "" ""
def WsFrame.error (code message : String) : WsFrame := .reply "error" "" code message

/-- What a channel's name stands for. -/
inductive WsChannel where
  | job (jobID : String)
  | queue (queueName : String)
  | all
deriving DecidableEq, Repr

/-- `strings.HasPrefix` and `strings.TrimPrefix` -/
def trimPrefix (start s : String) : Option String :=
  if start.toList.isPrefixOf s.toList then some (String.ofList (s.toList.drop start.length)) else none

/-- The switch of `handleSubscribe`. -/
def wsChannel (channel : String) : Option WsChannel :=
  match trimPrefix "job:" channel with
  | some jobID => some (.job jobID)
  | none => match trimPrefix "queue:" channel with
    | some queueName => some (.queue queueName)
    | none => if channel = "all" then some .all else none

/-- The filters of `SubscribeJob`, `SubscribeQueue` and `SubscribeAll`. -/
def WsChannel.filter : WsChannel → Option (JobEvent → Bool)
  | .job jobID => some fun e => e.jobID == jobID
  | .queue queueName => some fun e => e.queue == queueName
  | .all => none

/-- The answer when the backend does not know what the channel names. It is not
asked about all events. -/
def WsChannel.notFound : WsChannel → Option WsFrame
  | .job _ => some (.error "not_found" "Job not found.")
  | .queue _ => some (.error "not_found" "Queue not found.")
  | .all => none

/-- Where `Handle` is: it waits for a message, or it is in `handleSubscribe`, or
it cancels subscriptions, to reply to an unsubscribe or to return. -/
inductive WsPc where
  | reading
  | subscribing (channel : String)
  | storing (sub : WsSubscription)
  /-- the subscriptions it has still to cancel -/
  | cancelling (reply : Option String) (todo : List WsSubscription)
  /-- the first one is out of the map of the broker and not closed yet -/
  | closing (reply : Option String) (sub : WsSubscription) (todo : List WsSubscription)
  | returned
deriving DecidableEq, Repr

/-- A response that was written, with the subscription whose event it forwards. -/
structure WsWritten where
  source : Option Nat
  frame : WsFrame
deriving DecidableEq, Repr

/-- One call of `Handle`. -/
structure WsConn where
  subs : List WsSubscription := []
  pc : WsPc := .reading
  ctxDone : Bool := false
  out : List WsWritten := []

/-- Where a forwarding goroutine is. -/
inductive WsForwarder where
  | waiting
  | holding (m : SentEvent)
  | numbered (m : SentEvent) (response : WsResponse)
  | ended

/-- The handler with its connections and the broker. -/
structure WsService where
  handler : WSHandler := {}
  broker : PubSubBroker := {}
  accepted : Nat := 0
  conn : Nat → WsConn := fun _ => {}
  /-- the connection and the channel that `handleSubscribe` made a subscription for -/
  owner : Nat → Option (Nat × String) := fun _ => none
  forwarder : Nat → Option WsForwarder := fun _ => none

namespace WsService

def setConn (c : Nat) (k : WsConn) (st : WsService) : WsService :=
  { st with conn := Function.update st.conn c k }

/-- `writeJSON`: the write may fail, which is only logged. -/
def writeJSON (c : Nat) (source : Option Nat) (frame : WsFrame) (sent : Bool) (st : WsService) :
    WsService :=
  if sent then st.setConn c { st.conn c with out := (st.conn c).out ++ [⟨source, frame⟩] } else st

def goto (c : Nat) (pc : WsPc) (st : WsService) : WsService :=
  st.setConn c { st.conn c with pc := pc }

def setForwarder (s : Nat) (f : WsForwarder) (st : WsService) : WsService :=
  { st with forwarder := Function.update st.forwarder s (some f) }

/-- `subs.Load` -/
def load (c : Nat) (channel : String) (st : WsService) : Option WsSubscription :=
  (st.conn c).subs.find? fun sub => sub.channel = channel

/-- `handleSubscribe`, up to the call of the broker; `found` is what the backend
answers. -/
def handleSubscribe (c : Nat) (channel : String) (found sent : Bool) (st : WsService) : WsService :=
  match st.load c channel with
  | some _ => st.writeJSON c none (.subscribed channel) sent
  | none => match wsChannel channel with
    | none => st.writeJSON c none (.error "invalid_request"
        "Invalid channel. Use 'job:\x7bid\x7d', 'queue:\x7bname\x7d', or 'all'.") sent
    | some k => match if found then none else k.notFound with
      | some frame => st.writeJSON c none frame sent
      | none => st.goto c (.subscribing channel)

/-- `handleUnsubscribe`, up to the call of `cancel`. -/
def handleUnsubscribe (c : Nat) (channel : String) (sent : Bool) (st : WsService) : WsService :=
  match st.load c channel with
  | some sub => st.setConn c { st.conn c with
      subs := (st.conn c).subs.erase sub
      pc := .cancelling (some channel) [sub] }
  | none => st.writeJSON c none (.unsubscribed channel) sent

/-- A message of the client, `none` when it is no JSON. -/
def handleMessage (c : Nat) (msg : Option WsMessage) (found sent : Bool) (st : WsService) : WsService :=
  match msg with
  | none => st.writeJSON c none (.error "invalid_request" "Invalid JSON message.") sent
  | some msg =>
    if msg.action = "subscribe" then st.handleSubscribe c msg.channel found sent
    else if msg.action = "unsubscribe" then st.handleUnsubscribe c msg.channel sent
    else st.writeJSON c none (.error "invalid_request"
      "Unknown action. Use 'subscribe' or 'unsubscribe'.") sent

inductive Label where
  | accept
  /-- a step of the broker by others: its publishers, its other subscribers, and
  the server when it closes it -/
  | other (l : PubSubBroker.Label)
  /-- `Handle` reads a message, or fails to read one; the request's context ends -/
  | message (c : Nat) (msg : Option WsMessage) (found sent : Bool)
  | hangUp (c : Nat)
  | expire (c : Nat)
  /-- the broker's `subscribe`, and what `handleSubscribe` does after it -/
  | subscribe (c s : Nat) (channel : String)
  | start (c : Nat) (sent : Bool)
  /-- a `cancel`: its section under the broker's lock, and the close after it -/
  | unsubscribe (c s : Nat)
  | close (c s : Nat)
  | reply (c : Nat) (sent : Bool)
  /-- `Handle` returns -/
  | leave (c : Nat)
  /-- the forwarding goroutine -/
  | receive (s : Nat) (m : Option SentEvent)
  | forward (s : Nat)
  | write (s : Nat) (sent : Bool)
  | quit (s : Nat)

/-- Whether others may take the step: they unsubscribe, close and read their own
subscriptions, and the server closes the broker once. -/
def othersMay (st : WsService) : PubSubBroker.Label → Bool
  | .unsubscribe s | .closeChannel s | .receive s _ => (st.owner s).isNone
  | .closeDone => !st.broker.done
  | _ => true

/-- A step of the broker. -/
def act (st : WsService) (l : PubSubBroker.Label) : Option WsService :=
  (st.broker.step l).map fun b => { st with broker := b }

/-- What a step does, when it is possible. -/
def step (marshal : JobEvent → Option String) (st : WsService) : Label → Option WsService
  | .accept => some { st with accepted := st.accepted + 1 }
  | .other l => if st.othersMay l then st.act l else none
  | .message c msg found sent =>
    if c < st.accepted ∧ (st.conn c).pc = .reading then some (st.handleMessage c msg found sent) else none
  | .hangUp c =>
    if c < st.accepted ∧ (st.conn c).pc = .reading then
      some (st.goto c (.cancelling none (st.conn c).subs))
    else none
  | .expire c => some (st.setConn c { st.conn c with ctxDone := true })
  | .subscribe c s channel =>
    match (st.conn c).pc, wsChannel channel with
    | .subscribing channel', some k =>
      if channel = channel' then
        (st.act (.subscribe s k.filter)).map fun st =>
          { st.goto c (.storing ⟨channel, s⟩) with owner := Function.update st.owner s (some (c, channel)) }
      else none
    | _, _ => none
  | .start c sent => match (st.conn c).pc with
    | .storing sub =>
      some (((st.setConn c { st.conn c with subs := sub :: (st.conn c).subs, pc := .reading }).writeJSON c
        none (.subscribed sub.channel) sent).setForwarder sub.s .waiting)
    | _ => none
  | .unsubscribe c s => match (st.conn c).pc with
    | .cancelling reply todo => match todo.find? fun sub => sub.s = s with
      | some sub => (st.act (.unsubscribe s)).map fun st => st.goto c (.closing reply sub (todo.erase sub))
      | none => none
    | _ => none
  | .close c s => match (st.conn c).pc with
    | .closing reply sub todo =>
      if s = sub.s then (st.act (.closeChannel s)).map fun st => st.goto c (.cancelling reply todo) else none
    | _ => none
  | .reply c sent => match (st.conn c).pc with
    | .cancelling (some channel) [] =>
      some ((st.goto c .reading).writeJSON c none (.unsubscribed channel) sent)
    | _ => none
  | .leave c => match (st.conn c).pc with
    | .cancelling none [] => some (st.setConn c { st.conn c with pc := .returned, ctxDone := true })
    | _ => none
  | .receive s m => match st.forwarder s with
    | some .waiting => (st.act (.receive s m)).map fun st =>
      st.setForwarder s (match m with | some m => .holding m | none => .ended)
    | _ => none
  | .forward s => match st.forwarder s, st.owner s with
    | some (.holding m), some (_, channel) =>
      match st.handler.forward marshal channel m.event with
      | (some response, handler) =>
        some ({ st with handler := handler }.setForwarder s (.numbered m response))
      | (none, handler) => some ({ st with handler := handler }.setForwarder s .waiting)
    | _, _ => none
  | .write s sent => match st.forwarder s, st.owner s with
    | some (.numbered _ response), some (c, _) =>
      some ((st.writeJSON c (some s) { response with } sent).setForwarder s .waiting)
    | _, _ => none
  | .quit s => match st.forwarder s, st.owner s with
    | some .waiting, some (c, _) =>
      if (st.conn c).ctxDone then some (st.setForwarder s .ended) else none
    | _, _ => none

/-- The service after the steps, from a new one on. -/
def after (marshal : JobEvent → Option String) (ls : List Label) : Option WsService :=
  ls.foldlM (step marshal) {}

/-- The step of the broker, if it is one. -/
def Label.ofBroker : Label → Option PubSubBroker.Label
  | .other l => some l
  | .subscribe _ s channel => (wsChannel channel).map fun k => .subscribe s k.filter
  | .unsubscribe _ s => some (.unsubscribe s)
  | .close _ s => some (.closeChannel s)
  | .receive s m => some (.receive s m)
  | _ => none

/-- The broker's steps. -/
def brokerLabels (ls : List Label) : List PubSubBroker.Label := ls.filterMap Label.ofBroker

end WsService
end OjsSqs
