import OjsSqs.State.Record

/-! # The SQS service

The undeleted messages of all main queues are one list, each with the URL of
its queue. A receive picks visible messages, in any number and, unless the
queue is a FIFO one, in any order, and gives each a new receipt handle; only
the newest handle of a message deletes it or changes its visibility. A queue
may have a redrive policy: a message that was received `maxReceiveCount` times
is not delivered once more but moved to the native dead letter queue, which is
kept apart from the main queues because nothing reads it. -/
namespace OjsSqs

/-- A message of a main queue. `body` is the job its JSON decodes to. -/
structure Message where
  id : MessageId
  queueURL : String
  body : Option Job
  groupID : Option String := none
  deduplicationID : Option String := none
  visible : Bool := true
  receiveCount : Nat := 0
  receipt : Option Receipt := none
deriving DecidableEq, Repr

/-- A message as `ReceiveMessage` hands it out. -/
structure Delivery where
  messageID : MessageId
  body : Option Job
  receiptHandle : Receipt
deriving DecidableEq, Repr

/-- One entry of `SendMessage` or `SendMessageBatch`. -/
structure OutMessage where
  body : Job
  groupID : Option String := none
  deduplicationID : Option String := none
deriving DecidableEq, Repr

structure SqsState where
  /-- The redrive limit of each queue that was created, by URL. -/
  queues : AList fun _ : String => Option Nat := ∅
  messages : List Message := []
  nativeDLQ : List Message := []
  nextMessage : MessageId := 0

namespace SqsState

/-- `CreateQueue`: an existing queue is left as it is. -/
def createQueue (url : String) (q : SqsState) : SqsState :=
  match q.queues.lookup url with
  | some _ => q
  | none => { q with queues := q.queues.insert url none }

/-- `SetQueueAttributes` with a redrive policy. -/
def setRedrive (url : String) (maxReceiveCount : Nat) (q : SqsState) : SqsState :=
  { q with queues := q.queues.insert url (some maxReceiveCount) }

/-- `SendMessage` -/
def send (url : String) (m : OutMessage) (q : SqsState) : SqsState :=
  { q with
    messages := q.messages ++ [⟨q.nextMessage, url, some m.body, m.groupID, m.deduplicationID,
      true, 0, none⟩]
    nextMessage := q.nextMessage + 1 }

/-- `SendMessageBatch`, all entries accepted. -/
def sendBatch (url : String) (ms : List OutMessage) (q : SqsState) : SqsState :=
  ms.foldl (fun q m => q.send url m) q

/-- Change the message with the id. -/
def modify (id : MessageId) (f : Message → Message) (q : SqsState) : SqsState :=
  { q with messages := q.messages.map fun m => if m.id = id then f m else m }

def find (id : MessageId) (q : SqsState) : Option Message :=
  q.messages.find? fun m => m.id = id

/-- The redrive policy of its queue gives the message no further delivery. -/
def exhausted (m : Message) (q : SqsState) : Bool :=
  match q.queues.lookup m.queueURL with
  | some (some limit) => decide (limit ≤ m.receiveCount)
  | _ => false

/-- Take the message out of the main queues. -/
def redrive (m : Message) (q : SqsState) : SqsState :=
  { q with
    messages := q.messages.filter fun m' => m'.id ≠ m.id
    nativeDLQ := q.nativeDLQ ++ [m] }

/-- The handle of a message's next receive. -/
def nextReceipt (m : Message) : Receipt := ⟨m.id, m.receiveCount + 1⟩

/-- Hand the message out: a new handle, one receive more, hidden for the
visibility timeout. -/
def deliver (id : MessageId) (visibilitySec : Int) (q : SqsState) : SqsState :=
  q.modify id fun m => { m with
    visible := decide (visibilitySec ≤ 0)
    receiveCount := m.receiveCount + 1
    receipt := some (nextReceipt m) }

/-- `ReceiveMessage` when SQS picks these messages, in this order. -/
def receive (visibilitySec : Int) : List MessageId → SqsState → List Delivery × SqsState
  | [], q => ([], q)
  | id :: ids, q => match q.find id with
    | none => receive visibilitySec ids q
    | some m =>
      if q.exhausted m then receive visibilitySec ids (q.redrive m)
      else
        let rest := receive visibilitySec ids (q.deliver id visibilitySec)
        (⟨id, m.body, nextReceipt m⟩ :: rest.1, rest.2)

def isFIFO (url : String) : Bool := ".fifo".toList.isSuffixOf url.toList

/-- The messages of a group, in their order. -/
def groupOf (url : String) (groupID : Option String) (q : SqsState) : List Message :=
  q.messages.filter fun m => m.queueURL = url ∧ m.groupID = groupID

/-- A FIFO queue hands out the messages of a group from the first one on, and
none of them while one is hidden. -/
def keepsGroups (url : String) (ids : List MessageId) (q : SqsState) : Bool :=
  !isFIFO url || ids.all fun id => match q.find id with
    | none => true
    | some m =>
      let group := q.groupOf url m.groupID
      group.all (·.visible) &&
        (ids.filter fun i => group.any (·.id = i)).isPrefixOf (group.map (·.id))

/-- What SQS may pick for one `ReceiveMessage`. -/
def mayPick (url : String) (max : Nat) (ids : List MessageId) (q : SqsState) : Bool :=
  decide (ids.length ≤ max ∧ ids.Nodup) &&
    (ids.all fun id => q.messages.any fun m =>
      decide (m.id = id) && decide (m.queueURL = url) && m.visible) &&
    q.keepsGroups url ids

/-- None of the picked messages has used up its deliveries. -/
def noneExhausted (ids : List MessageId) (q : SqsState) : Bool :=
  ids.all fun id => match q.find id with
    | some m => !q.exhausted m
    | none => true

/-- `DeleteMessage` -/
def delete (url : String) (h : Receipt) (q : SqsState) : SqsState :=
  { q with messages := q.messages.filter fun m => ¬(m.queueURL = url ∧ m.receipt = some h) }

/-- `ChangeMessageVisibility` -/
def changeVisibility (url : String) (h : Receipt) (visibilitySec : Int) (q : SqsState) : SqsState :=
  { q with messages := q.messages.map fun m =>
      if m.queueURL = url ∧ m.receipt = some h then
        { m with visible := decide (visibilitySec ≤ 0) } else m }

/-- The visibility timeout of a message runs out. -/
def expireVisibility (id : MessageId) (q : SqsState) : SqsState :=
  q.modify id fun m => { m with visible := true }

end SqsState
end OjsSqs
