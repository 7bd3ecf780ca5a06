import OjsSqs.Lifecycle.Messages

/-! # Which messages a receive leaves to be received

With a visibility timeout the messages of a receive are hidden, so that every
receive that finds something leaves fewer messages for the next one. -/
namespace OjsSqs
namespace SqsState

variable {q : SqsState}

/-- The identifiers of the messages that can be received. -/
def visibleIDs (q : SqsState) : List MessageId := (q.messages.filter (·.visible)).map (·.id)

theorem mem_visibleIDs {id : MessageId} :
    id ∈ q.visibleIDs ↔ ∃ m ∈ q.messages, m.visible = true ∧ m.id = id := by
  simp [visibleIDs, and_assoc]

/-- A hidden message cannot be received. -/
theorem Sound.hidden (hq : q.Sound) {m : Message} (hm : m ∈ q.messages) (hv : m.visible = false) :
    m.id ∉ q.visibleIDs := by
  intro hin
  obtain ⟨m', hm', hv', hid⟩ := mem_visibleIDs.mp hin
  rw [hq.unique hm' hm hid, hv] at hv'
  cases hv'

theorem redrive_visibleIDs (m : Message) :
    (q.redrive m).visibleIDs = q.visibleIDs.filter fun id => id ≠ m.id := by
  rw [visibleIDs, redrive_messages]
  simp [visibleIDs, keepMessages, List.filter_map, List.filter_filter, Function.comp_def,
    Bool.and_comm]

theorem deliver_visibleIDs {vis : Int} (hvis : 0 < vis) (id : MessageId) :
    (q.deliver id vis).visibleIDs = q.visibleIDs.filter fun i => i ≠ id := by
  have hhides : ∀ m : Message, (deliverMessage id vis m).visible = (m.visible && decide (m.id ≠ id)) := by
    intro m
    rw [deliverMessage]
    split
    · rename_i h
      simp [h, hvis]
    · rename_i h
      simp [h]
  rw [visibleIDs, deliver_eq]
  simp only [visibleIDs, mapMessages, List.filter_map, List.map_map, List.filter_filter,
    Function.comp_def, hhides, fun m => (same_deliverMessage id vis m).id]
  refine congrArg _ (List.filter_congr fun m _ => ?_)
  rw [Bool.and_comm]

/-- The picked messages are hidden, or gone. -/
theorem receive_visibleIDs {vis : Int} (hvis : 0 < vis) (ids : List MessageId) :
    (receive vis ids q).2.visibleIDs = q.visibleIDs.filter fun id => id ∉ ids := by
  have hskip : ∀ (i : MessageId) (ids : List MessageId) (l : List MessageId),
      (l.filter fun id => id ≠ i).filter (fun id => id ∉ ids) = l.filter fun id => id ∉ i :: ids := by
    intro i ids l
    rw [List.filter_filter]
    refine List.filter_congr fun id _ => ?_
    simp [Bool.and_comm]
  induction ids generalizing q with
  | nil => exact (List.filter_eq_self.mpr fun _ _ => rfl).symm
  | cons i ids ih =>
    rw [receive, ← hskip]
    cases hf : q.find i with
    | none =>
      -- no message has the identifier
      have hnone : i ∉ q.visibleIDs := by
        intro hin
        obtain ⟨m, hm, -, hid⟩ := mem_visibleIDs.mp hin
        exact absurd hid (by simpa using List.find?_eq_none.mp hf m hm)
      have hself : (q.visibleIDs.filter fun id => id ≠ i) = q.visibleIDs :=
        List.filter_eq_self.mpr fun id hid => decide_eq_true (ne_of_mem_of_not_mem hid hnone)
      rw [hself]
      exact ih
    | some m =>
      simp only
      split
      · rw [ih, redrive_visibleIDs, (mem_of_find hf).2]
      · rw [ih, deliver_visibleIDs hvis]

/-- What SQS picks can be received. -/
theorem mayPick_visible {url : String} {max : Nat} {ids : List MessageId}
    (h : q.mayPick url max ids = true) : ids.Nodup ∧ ∀ id ∈ ids, id ∈ q.visibleIDs := by
  obtain ⟨-, hnodup, hall⟩ := picked_of_mayPick h
  refine ⟨hnodup, fun id hid => ?_⟩
  obtain ⟨m, hm, hid', -, hv⟩ := hall id hid
  exact mem_visibleIDs.mpr ⟨m, hm, hv, hid'⟩

/-- A receive that picks a message leaves fewer. -/
theorem receive_visible_lt {vis : Int} (hvis : 0 < vis) {ids : List MessageId} {i : MessageId}
    (hi : i ∈ ids) (hin : i ∈ q.visibleIDs) :
    (receive vis ids q).2.visibleIDs.length < q.visibleIDs.length := by
  rw [receive_visibleIDs hvis, List.length_filter_lt_length_iff_exists]
  exact ⟨i, hin, by simpa using hi⟩

end SqsState
end OjsSqs
