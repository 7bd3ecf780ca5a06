import OjsSqs.World

/-! # What the SQS service keeps

Message identifiers are never used twice, and a receipt handle names the
message it was given for. Every call keeps this. `messagesOf` are the
undeleted messages of one job; each call is described by what it does to
them, and `Keeps` says that no call turns an old message into another job's. -/
namespace OjsSqs

/-- The job a message is about. -/
def Message.jobID (m : Message) : Option String := m.body.map (·.id)

namespace SqsState

/-- The undeleted messages of a job. -/
def messagesOf (id : String) (q : SqsState) : List Message :=
  q.messages.filter fun m => m.jobID = some id

structure Sound (q : SqsState) : Prop where
  nodup : (q.messages.map (·.id)).Nodup
  fresh : ∀ m ∈ q.messages, m.id < q.nextMessage
  receipts : ∀ m ∈ q.messages, ∀ h, m.receipt = some h → h.message = m.id

/-- From `q` to `q'` every message that was there before is still about the
same job. -/
structure Keeps (q q' : SqsState) : Prop where
  next : q.nextMessage ≤ q'.nextMessage
  old : ∀ m' ∈ q'.messages, m'.id < q.nextMessage →
    ∃ m ∈ q.messages, m.id = m'.id ∧ m.jobID = m'.jobID

theorem Keeps.refl (q : SqsState) : q.Keeps q := ⟨le_refl _, fun m hm _ => ⟨m, hm, rfl, rfl⟩⟩

theorem Keeps.trans {q₁ q₂ q₃ : SqsState} (h : q₁.Keeps q₂) (h' : q₂.Keeps q₃) : q₁.Keeps q₃ := by
  refine ⟨le_trans h.next h'.next, fun m₃ hm₃ hlt => ?_⟩
  obtain ⟨m₂, hm₂, hid, hjob⟩ := h'.old m₃ hm₃ (lt_of_lt_of_le hlt h.next)
  obtain ⟨m₁, hm₁, hid', hjob'⟩ := h.old m₂ hm₂ (by rw [hid]; exact hlt)
  exact ⟨m₁, hm₁, hid'.trans hid, hjob'.trans hjob⟩

variable {q : SqsState}

theorem mem_messagesOf {id : String} {m : Message} :
    m ∈ q.messagesOf id ↔ m ∈ q.messages ∧ m.jobID = some id := by
  simp [messagesOf]

/-- What SQS picks are visible messages of the queue, each once. -/
theorem picked_of_mayPick {url : String} {max : Nat} {ids : List MessageId}
    (h : q.mayPick url max ids = true) : ids.length ≤ max ∧ ids.Nodup ∧ ∀ id ∈ ids,
      ∃ m ∈ q.messages, m.id = id ∧ m.queueURL = url ∧ m.visible = true := by
  simp only [mayPick, Bool.and_eq_true, decide_eq_true_eq, List.all_eq_true, List.any_eq_true] at h
  obtain ⟨⟨⟨hlen, hnodup⟩, hall⟩, -⟩ := h
  refine ⟨hlen, hnodup, fun id hid => ?_⟩
  obtain ⟨m, hm, ⟨hmid, hurl⟩, hv⟩ := hall id hid
  exact ⟨m, hm, hmid, hurl, hv⟩

/-! ## Changing messages in place -/

/-- The same messages, changed by `f`, with nothing sent. -/
def mapMessages (f : Message → Message) (q : SqsState) : SqsState :=
  { q with messages := q.messages.map f }

/-- The message is the same for everything but its deliveries. -/
structure SameMessage (m m' : Message) : Prop where
  id : m'.id = m.id
  body : m'.body = m.body
  queueURL : m'.queueURL = m.queueURL
  receipt : ∀ h, m'.receipt = some h → m.receipt = some h ∨ h.message = m.id

theorem SameMessage.jobID {m m' : Message} (h : SameMessage m m') : m'.jobID = m.jobID := by
  rw [Message.jobID, Message.jobID, h.body]

theorem SameMessage.refl (m : Message) : SameMessage m m := ⟨rfl, rfl, rfl, fun _ => .inl⟩

theorem Sound.map (hq : q.Sound) {f : Message → Message} (hf : ∀ m, SameMessage m (f m)) :
    (q.mapMessages f).Sound := by
  have hids : (q.mapMessages f).messages.map (·.id) = q.messages.map (·.id) := by
    simp [mapMessages, Function.comp_def, fun m => (hf m).id]
  refine ⟨hids ▸ hq.nodup, ?_, ?_⟩
  · intro m' hm'
    obtain ⟨m, hm, rfl⟩ := List.mem_map.mp hm'
    rw [(hf m).id]
    exact hq.fresh m hm
  · intro m' hm' h hr
    obtain ⟨m, hm, rfl⟩ := List.mem_map.mp hm'
    rw [(hf m).id]
    rcases (hf m).receipt h hr with hr | hr
    · exact hq.receipts m hm h hr
    · exact hr

theorem keeps_map {f : Message → Message} (hf : ∀ m, SameMessage m (f m)) :
    q.Keeps (q.mapMessages f) := by
  refine ⟨le_refl _, fun m' hm' _ => ?_⟩
  obtain ⟨m, hm, rfl⟩ := List.mem_map.mp hm'
  exact ⟨m, hm, (hf m).id.symm, (hf m).jobID.symm⟩

theorem messagesOf_map {f : Message → Message} (hf : ∀ m, SameMessage m (f m)) (id : String) :
    (q.mapMessages f).messagesOf id = (q.messagesOf id).map f := by
  simp [messagesOf, mapMessages, List.filter_map, Function.comp_def, fun m => (hf m).jobID]

/-! ## Removing messages -/

/-- The messages that satisfy `p`. -/
def keepMessages (p : Message → Bool) (q : SqsState) : SqsState :=
  { q with messages := q.messages.filter p }

theorem Sound.filter (hq : q.Sound) (p : Message → Bool) : (q.keepMessages p).Sound :=
  ⟨hq.nodup.sublist (List.filter_sublist.map _),
    fun m hm => hq.fresh m (List.mem_of_mem_filter hm),
    fun m hm => hq.receipts m (List.mem_of_mem_filter hm)⟩

theorem keeps_filter (p : Message → Bool) : q.Keeps (q.keepMessages p) :=
  ⟨le_refl _, fun m hm _ => ⟨m, List.mem_of_mem_filter hm, rfl, rfl⟩⟩

theorem messagesOf_filter (p : Message → Bool) (id : String) :
    (q.keepMessages p).messagesOf id = (q.messagesOf id).filter p := by
  simp [messagesOf, keepMessages, List.filter_filter, Bool.and_comm]

/-! ## The calls -/

theorem sound_createQueue (url : String) (hq : q.Sound) : (q.createQueue url).Sound := by
  rw [createQueue]
  split
  · exact hq
  · exact ⟨hq.nodup, hq.fresh, hq.receipts⟩

@[simp] theorem createQueue_messages (url : String) :
    (q.createQueue url).messages = q.messages := by
  rw [createQueue]
  split <;> rfl

@[simp] theorem createQueue_nextMessage (url : String) :
    (q.createQueue url).nextMessage = q.nextMessage := by
  rw [createQueue]
  split <;> rfl

@[simp] theorem createQueue_messagesOf (url id : String) :
    (q.createQueue url).messagesOf id = q.messagesOf id := by
  rw [messagesOf, createQueue_messages, messagesOf]

theorem keeps_createQueue (url : String) : q.Keeps (q.createQueue url) :=
  ⟨by simp, fun m hm _ => ⟨m, by simpa using hm, rfl, rfl⟩⟩

/-- The message a send leaves. -/
def sent (url : String) (m : OutMessage) (q : SqsState) : Message :=
  ⟨q.nextMessage, url, some m.body, m.groupID, m.deduplicationID, true, 0, none⟩

@[simp] theorem send_messages (url : String) (m : OutMessage) :
    (q.send url m).messages = q.messages ++ [q.sent url m] := rfl

theorem sound_send (url : String) (m : OutMessage) (hq : q.Sound) : (q.send url m).Sound := by
  refine ⟨?_, ?_, ?_⟩
  · rw [send_messages, List.map_append, List.nodup_append]
    refine ⟨hq.nodup, by simp, ?_⟩
    intro a ha b hb
    obtain ⟨m', hm', rfl⟩ := List.mem_map.mp ha
    have hlt := hq.fresh m' hm'
    rw [List.map_singleton, List.mem_singleton] at hb
    rw [hb]
    exact Nat.ne_of_lt hlt
  · intro m' hm'
    rcases List.mem_append.mp hm' with h | h
    · exact Nat.lt_succ_of_lt (hq.fresh m' h)
    · rw [List.mem_singleton.mp h]
      exact Nat.lt_succ_self _
  · intro m' hm' h hr
    rcases List.mem_append.mp hm' with hm | hm
    · exact hq.receipts m' hm h hr
    · rw [List.mem_singleton.mp hm] at hr
      cases hr

theorem keeps_send (url : String) (m : OutMessage) : q.Keeps (q.send url m) := by
  refine ⟨Nat.le_succ _, fun m' hm' hlt => ?_⟩
  rcases List.mem_append.mp hm' with h | h
  · exact ⟨m', h, rfl, rfl⟩
  · rw [List.mem_singleton.mp h] at hlt
    exact absurd hlt (lt_irrefl _)

theorem send_messagesOf (url : String) (m : OutMessage) (id : String) :
    (q.send url m).messagesOf id =
      q.messagesOf id ++ if m.body.id = id then [q.sent url m] else [] := by
  by_cases h : m.body.id = id <;>
    simp [messagesOf, List.filter_append, Message.jobID, sent, h]

theorem delete_eq (url : String) (h : Receipt) : q.delete url h =
    q.keepMessages fun m => ¬(m.queueURL = url ∧ m.receipt = some h) := rfl

/-- What `ChangeMessageVisibility` does to a message. -/
def showMessage (url : String) (h : Receipt) (vis : Int) (m : Message) : Message :=
  if m.queueURL = url ∧ m.receipt = some h then { m with visible := decide (vis ≤ 0) } else m

theorem changeVisibility_eq (url : String) (h : Receipt) (vis : Int) :
    q.changeVisibility url h vis = q.mapMessages (showMessage url h vis) := rfl

theorem same_showMessage (url : String) (h : Receipt) (vis : Int) (m : Message) :
    SameMessage m (showMessage url h vis m) := by
  rw [showMessage]
  split <;> exact ⟨rfl, rfl, rfl, fun _ => .inl⟩

/-- What a delivery does to the picked message. -/
def deliverMessage (id : MessageId) (vis : Int) (m : Message) : Message :=
  if m.id = id then { m with
    visible := decide (vis ≤ 0)
    receiveCount := m.receiveCount + 1
    receipt := some (nextReceipt m) } else m

theorem deliver_eq (id : MessageId) (vis : Int) :
    q.deliver id vis = q.mapMessages (deliverMessage id vis) := rfl

theorem same_deliverMessage (id : MessageId) (vis : Int) (m : Message) :
    SameMessage m (deliverMessage id vis m) := by
  rw [deliverMessage]
  split
  · refine ⟨rfl, rfl, rfl, fun h hr => .inr ?_⟩
    cases hr
    rfl
  · exact SameMessage.refl m

theorem redrive_messages (m : Message) : (q.redrive m).messages =
    (q.keepMessages fun m' => m'.id ≠ m.id).messages := rfl

theorem sound_redrive (m : Message) (hq : q.Sound) : (q.redrive m).Sound :=
  let h := hq.filter fun m' => m'.id ≠ m.id
  ⟨h.nodup, h.fresh, h.receipts⟩

theorem mem_of_find {id : MessageId} {m : Message} (h : q.find id = some m) :
    m ∈ q.messages ∧ m.id = id := by
  have hp := List.find?_some h
  exact ⟨List.mem_of_find?_eq_some h, by simpa using hp⟩

/-- There is one message with an identifier. -/
theorem Sound.unique (hq : q.Sound) {m m' : Message} (hm : m ∈ q.messages)
    (hm' : m' ∈ q.messages) (h : m.id = m'.id) : m = m' :=
  List.inj_on_of_nodup_map hq.nodup hm hm' h

/-! ## Receiving -/

/-- What a receive does to the messages of the queues: each is the one it
was, or has been delivered. -/
structure Received (ids : List MessageId) (q : SqsState) (out : List Delivery)
    (q' : SqsState) : Prop where
  sound : q'.Sound
  next : q'.nextMessage = q.nextMessage
  picked : List.Sublist (out.map (·.messageID)) ids
  messages : ∀ m' ∈ q'.messages, ∃ m ∈ q.messages, m'.id = m.id ∧ m'.body = m.body ∧
    m'.queueURL = m.queueURL ∧ (m' = m ∨ m'.id ∈ ids) ∧ (m'.receipt = m.receipt ∨
      ∃ d ∈ out, d.messageID = m'.id ∧ m'.receipt = some d.receiptHandle)
  deliveries : ∀ d ∈ out, ∃ m' ∈ q'.messages, m'.id = d.messageID ∧ m'.body = d.body ∧
    m'.receipt = some d.receiptHandle

/-- A message that is not picked is not touched. -/
theorem receive_other (vis : Int) {ids : List MessageId} {m : Message} (hm : m ∈ q.messages)
    (hid : m.id ∉ ids) : m ∈ (receive vis ids q).2.messages := by
  induction ids generalizing q with
  | nil => exact hm
  | cons id ids ih =>
    obtain ⟨hne, hnot⟩ := not_or.mp (List.mem_cons.not.mp hid)
    rw [receive]
    cases hf : q.find id with
    | none => exact ih hm hnot
    | some m₁ =>
      have hm₁ := (mem_of_find hf).2
      simp only
      split
      · refine ih ?_ hnot
        rw [redrive_messages]
        exact List.mem_filter.mpr ⟨hm, by simpa [hm₁] using hne⟩
      · refine ih ?_ hnot
        rw [deliver_eq]
        exact List.mem_map.mpr ⟨m, hm, by rw [deliverMessage, if_neg hne]⟩

theorem receive_spec (vis : Int) {ids : List MessageId} (hids : ids.Nodup) (hq : q.Sound) :
    Received ids q (receive vis ids q).1 (receive vis ids q).2 := by
  induction ids generalizing q with
  | nil =>
    exact ⟨hq, rfl, List.Sublist.refl _,
      fun m hm => ⟨m, hm, rfl, rfl, rfl, .inl rfl, .inl rfl⟩, by simp [receive]⟩
  | cons id ids ih =>
    obtain ⟨hnot, hids⟩ := List.nodup_cons.mp hids
    rw [receive]
    cases hf : q.find id with
    | none =>
      obtain ⟨hs, hn, hp, hm, hd⟩ := ih hids hq
      refine ⟨hs, hn, hp.cons _, fun m' hm' => ?_, hd⟩
      obtain ⟨m, hmem, h₁, h₂, h₃, h₄, h₅⟩ := hm m' hm'
      exact ⟨m, hmem, h₁, h₂, h₃, h₄.imp_right (List.mem_cons_of_mem _), h₅⟩
    | some m₁ =>
      obtain ⟨hm₁, hid⟩ := mem_of_find hf
      simp only
      split
      · obtain ⟨hs, hn, hp, hm, hd⟩ := ih hids (sound_redrive m₁ hq)
        refine ⟨hs, hn, hp.cons _, fun m' hm' => ?_, hd⟩
        obtain ⟨m, hmem, h₁, h₂, h₃, h₄, h₅⟩ := hm m' hm'
        exact ⟨m, List.mem_of_mem_filter hmem, h₁, h₂, h₃,
          h₄.imp_right (List.mem_cons_of_mem _), h₅⟩
      · have hq' := hq.map (same_deliverMessage id vis)
        obtain ⟨hs, hn, hp, hm, hd⟩ := ih hids hq'
        refine ⟨hs, hn, hp.cons_cons _, fun m' hm' => ?_, ?_⟩
        · obtain ⟨m, hmem, h₁, h₂, h₃, h₄, h₅⟩ := hm m' hm'
          obtain ⟨m₀, hmem₀, rfl⟩ := List.mem_map.mp hmem
          have hsame := same_deliverMessage id vis m₀
          refine ⟨m₀, hmem₀, h₁.trans hsame.id, h₂.trans hsame.body, h₃.trans hsame.queueURL,
            ?_, ?_⟩
          · by_cases hpick : m₀.id = id
            · exact .inr (by rw [h₁, hsame.id, hpick]; exact List.mem_cons_self)
            · rw [deliverMessage, if_neg hpick] at h₄
              exact h₄.imp_right (List.mem_cons_of_mem _)
          · rcases h₅ with h₅ | ⟨d, hdm, hdid, hdr⟩
            · by_cases hpick : m₀.id = id
              · refine .inr ⟨_, List.mem_cons_self, ?_, ?_⟩
                · rw [h₁, hsame.id, hpick]
                · rw [h₅, deliverMessage, if_pos hpick, hq.unique hmem₀ hm₁ (hpick.trans hid.symm)]
              · rw [deliverMessage, if_neg hpick] at h₅
                exact .inl h₅
            · exact .inr ⟨d, List.mem_cons_of_mem _ hdm, hdid, hdr⟩
        · intro d hdm
          rcases List.mem_cons.mp hdm with rfl | hdm
          · refine ⟨deliverMessage id vis m₁, receive_other vis ?_ ?_, ?_, ?_, ?_⟩
            · exact List.mem_map.mpr ⟨m₁, hm₁, rfl⟩
            · rw [(same_deliverMessage id vis m₁).id, hid]
              exact hnot
            · rw [(same_deliverMessage id vis m₁).id, hid]
            · exact (same_deliverMessage id vis m₁).body
            · rw [deliverMessage, if_pos hid]
          · exact hd d hdm

theorem keeps_receive (vis : Int) {ids : List MessageId} (hids : ids.Nodup) (hq : q.Sound) :
    q.Keeps (receive vis ids q).2 := by
  have h := receive_spec vis hids hq
  refine ⟨le_of_eq h.next.symm, fun m' hm' _ => ?_⟩
  obtain ⟨m, hm, hid, hbody, -⟩ := h.messages m' hm'
  exact ⟨m, hm, hid.symm, by rw [Message.jobID, Message.jobID, hbody]⟩

theorem messagesOf_ids_map {f : Message → Message} (hf : ∀ m, SameMessage m (f m)) (id : String) :
    ((q.mapMessages f).messagesOf id).map (·.id) = (q.messagesOf id).map (·.id) := by
  rw [messagesOf_map hf, List.map_map]
  exact List.map_congr_left fun m _ => (hf m).id

/-- A receive gives no job another message. -/
theorem receive_messagesOf (vis : Int) (ids : List MessageId) (id : String) :
    List.Sublist (((receive vis ids q).2.messagesOf id).map (·.id))
      ((q.messagesOf id).map (·.id)) := by
  induction ids generalizing q with
  | nil => exact List.Sublist.refl _
  | cons i ids ih =>
    rw [receive]
    cases hf : q.find i with
    | none => exact ih
    | some m =>
      simp only
      split
      · refine ih.trans ?_
        have h := messagesOf_filter (fun m' => m'.id ≠ m.id) (q := q) id
        rw [messagesOf, ← redrive_messages, ← messagesOf] at h
        rw [h]
        exact List.filter_sublist.map _
      · have h := @ih (q.deliver i vis)
        rwa [deliver_eq, messagesOf_ids_map (same_deliverMessage i vis)] at h

theorem find_deliver {id i : MessageId} (vis : Int) (h : i ≠ id) :
    (q.deliver id vis).find i = q.find i := by
  rw [find, deliver_eq, mapMessages, List.find?_map]
  have hp : (fun m : Message => decide (m.id = i)) ∘ deliverMessage id vis =
      fun m => decide (m.id = i) := by
    funext m
    rw [Function.comp, (same_deliverMessage id vis m).id]
  rw [hp]
  change Option.map _ (q.find i) = _
  cases hf : q.find i with
  | none => rfl
  | some m =>
    rw [Option.map_some, deliverMessage, if_neg]
    rw [(mem_of_find hf).2]
    exact h

/-- Where no picked message has used up its deliveries, none is taken out of
the queues. -/
theorem receive_messagesOf_eq (vis : Int) {ids : List MessageId} (hids : ids.Nodup)
    (hq : q.noneExhausted ids = true) (id : String) :
    ((receive vis ids q).2.messagesOf id).map (·.id) = (q.messagesOf id).map (·.id) := by
  induction ids generalizing q with
  | nil => rfl
  | cons i ids ih =>
    obtain ⟨hnot, hids⟩ := List.nodup_cons.mp hids
    obtain ⟨hi, hrest⟩ : _ ∧ _ := by
      simpa only [noneExhausted, List.all_cons, Bool.and_eq_true] using hq
    rw [receive]
    cases hf : q.find i with
    | none => exact ih hids hrest
    | some m =>
      rw [hf] at hi
      have hi : q.exhausted m = false := by simpa using hi
      simp only [hi, Bool.false_eq_true, if_false]
      rw [ih hids, deliver_eq, messagesOf_ids_map (same_deliverMessage i vis)]
      refine List.all_eq_true.mpr fun j hj => ?_
      rw [find_deliver vis (ne_of_mem_of_not_mem hj hnot)]
      exact List.all_eq_true.mp hrest j hj

end SqsState
end OjsSqs
