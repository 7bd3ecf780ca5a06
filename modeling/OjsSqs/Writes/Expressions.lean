import OjsSqs.State.Expression
import OjsSqs.Writes.Operations
import OjsSqs.Atomic.Steps

/-! # The expressions the operations build

Every map the operations pass to `UpdateJobState`, but the empty one of an
expired job, has an entry for the state. The expression assigns the state by
itself, so DynamoDB refuses it. The expressions it does not refuse do what an
update of the record stands for. -/
namespace OjsSqs
open Calls

/-- What `attributevalue.Marshal` makes of a value of a map. -/
inductive AttributeValue where
  | s (text : String)
  | n (number : Option Int)
  | state (s : JobState)
  | handle (h : Option Receipt)
  | messageID (m : MessageId)
  | json (e : Option RawMessage)
  | history (h : JsonText (List RawMessage))

/-- The value of an entry. -/
def JobUpdate.value : JobUpdate → AttributeValue
  | .state s => .state s
  | .startedAt t | .workerID t | .completedAt t | .cancelledAt t | .enqueuedAt t | .result t => .s t
  | .sqsReceiptHandle h => .handle h
  | .sqsMessageID m => .messageID m
  | .errorData e => .json e
  | .errorHistory h => .history h
  | .attempt n => .n (some n)
  | .retryDelayMs n => .n n

/-- The entries of a map, met in the order of the list. -/
def entriesOf (updates : List JobUpdate) : List (String × AttributeValue) :=
  updates.map fun u => (u.key, u.value)

/-- The expression `UpdateJobState` builds. -/
def jobExpression (newState : JobState) (updates : List JobUpdate) (gsi1sk gsi2pk : String) :
    UpdateExpression AttributeValue :=
  updateExpression (.state newState) (entriesOf updates) (.s gsi1sk) (.s gsi2pk)

/-- The expression assigns no attribute twice, binds each placeholder once, and
where it is applied the item is overridden by the state, the entries and the
two index attributes alone. -/
structure Applicable (newState : JobState) (updates : List JobUpdate) (gsi1sk gsi2pk : String) :
    Prop where
  paths : (jobExpression newState updates gsi1sk gsi2pk).paths.Nodup
  bound : (jobExpression newState updates gsi1sk gsi2pk).BoundOnce
  result : ∀ item item', (jobExpression newState updates gsi1sk gsi2pk).apply item = some item' →
    item' = overridden (.state newState) (entriesOf updates) (.s gsi1sk) (.s gsi2pk) item

/-- The call's map, in any order, gives an applicable expression. -/
def Call.applicable : Call → Prop
  | .dynamo (.updateJobItem _ newState updates gsi1sk gsi2pk) =>
    ∀ order, order.Perm updates → Applicable newState order gsi1sk gsi2pk
  | _ => True

/-- The call's map has no entry for the state. -/
def Call.stateless : Call → Prop
  | .dynamo (.updateJobItem _ _ updates _ _) => ∀ u ∈ updates, u.key ≠ "state"
  | _ => True

/-! ## The keys of the maps -/

theorem entriesOf_keys (updates : List JobUpdate) :
    (entriesOf updates).map (·.1) = updates.map (·.key) := by
  rw [entriesOf, List.map_map]
  rfl

theorem JobUpdate.key_ne_gsi (u : JobUpdate) : u.key ≠ "GSI1SK" ∧ u.key ≠ "GSI2PK" := by
  cases u <;> exact ⟨by simp only [JobUpdate.key]; decide, by simp only [JobUpdate.key]; decide⟩

theorem entriesOf_no_gsi (updates : List JobUpdate) :
    "GSI1SK" ∉ (entriesOf updates).map (·.1) ∧ "GSI2PK" ∉ (entriesOf updates).map (·.1) := by
  rw [entriesOf_keys]
  constructor
  · intro h
    obtain ⟨u, -, hu⟩ := List.mem_map.mp h
    exact u.key_ne_gsi.1 hu
  · intro h
    obtain ⟨u, -, hu⟩ := List.mem_map.mp h
    exact u.key_ne_gsi.2 hu

/-- A map has each key once. -/
theorem Rewrite.updates_keys (cfg : Config) (x : Rewrite) :
    ((x.updates cfg).map (·.key)).Nodup := by
  have hresult : ∀ now result, ((ackUpdates now result).map (·.key)).Nodup := by
    intro now result
    have hshort : ["state", "completed_at", "error_data"].Nodup := by decide
    have hlong : ["state", "completed_at", "result", "error_data"].Nodup := by decide
    rw [ackUpdates]
    cases result with
    | none => exact hshort
    | some res =>
      rw [resultUpdate]
      split
      · exact hshort
      · exact hlong
  have herror : ∀ us err, (us.map JobUpdate.key).Nodup → "error_data" ∉ us.map JobUpdate.key →
      ((us ++ errorUpdate err).map (·.key)).Nodup := by
    intro us err hus hnot
    cases err with
    | none =>
      rw [errorUpdate, List.append_nil]
      exact hus
    | some e =>
      rw [errorUpdate, List.map_append, List.nodup_append]
      refine ⟨hus, List.nodup_singleton _, fun k hk k' hk' heq => hnot ?_⟩
      rw [List.map_singleton, List.mem_singleton] at hk'
      rwa [heq, hk'] at hk
  cases x with
  | complete now result => exact hresult now result
  | discard t record e =>
    have hkeys : ([JobUpdate.state .discarded, .completedAt t,
        .errorHistory (.of (histJSON record e)), .attempt (record.attempt + 1),
        .sqsReceiptHandle none].map JobUpdate.key) =
      ["state", "completed_at", "error_history", "attempt", "sqs_receipt_handle"] := rfl
    exact herror _ _ (by rw [hkeys]; decide) (by rw [hkeys]; decide)
  | retry ms record e =>
    have hkeys : ([JobUpdate.state .retryable, .errorHistory (.of (histJSON record e)),
        .attempt (record.attempt + 1), .retryDelayMs (some ms),
        .sqsReceiptHandle none].map JobUpdate.key) =
      ["state", "error_history", "attempt", "retry_delay_ms", "sqs_receipt_handle"] := rfl
    exact herror _ _ (by rw [hkeys]; decide) (by rw [hkeys]; decide)
  | expire => exact List.nodup_nil
  | activate now worker d =>
    show ["state", "started_at", "worker_id", "sqs_receipt_handle", "sqs_message_id"].Nodup
    decide
  | requeue t =>
    show ["state", "started_at", "worker_id", "enqueued_at", "sqs_receipt_handle"].Nodup
    decide
  | cancel now =>
    show ["state", "cancelled_at", "sqs_receipt_handle"].Nodup
    decide
  | promote now =>
    show ["state", "enqueued_at"].Nodup
    decide
  | revive now =>
    show ["state", "attempt", "enqueued_at", "error_data", "error_history", "completed_at",
      "retry_delay_ms"].Nodup
    decide

/-- Only the map of an expired job has no entry for the state. -/
theorem Rewrite.updates_state (cfg : Config) (x : Rewrite) :
    x = .expire ∨ .state x.state ∈ x.updates cfg := by
  cases x <;> first | exact .inl rfl | exact .inr List.mem_cons_self

/-! ## The expression of a map -/

section
variable {newState : JobState} {updates : List JobUpdate} {gsi1sk gsi2pk : String}

/-- A map gives an applicable expression if and only if it leaves the state to
`UpdateJobState`. -/
theorem applicable_iff (hkeys : (updates.map (·.key)).Nodup) :
    Applicable newState updates gsi1sk gsi2pk ↔ ∀ u ∈ updates, u.key ≠ "state" := by
  obtain ⟨hsk, hpk⟩ := entriesOf_no_gsi updates
  rw [← entriesOf_keys] at hkeys
  have hpaths := updateExpression_paths (.state newState) (.s gsi1sk) (.s gsi2pk) hkeys hsk hpk
  have happly := updateExpression_apply (.state newState) (.s gsi1sk) (.s gsi2pk) hkeys hsk hpk
  have hstate : "state" ∉ (entriesOf updates).map (·.1) ↔ ∀ u ∈ updates, u.key ≠ "state" := by
    rw [entriesOf_keys, List.mem_map]
    exact ⟨fun h u hu hk => h ⟨u, hu, hk⟩, fun h ⟨u, hu, hk⟩ => h u hu hk⟩
  rw [hstate] at hpaths
  refine ⟨fun h => hpaths.mp h.paths, fun h => ⟨hpaths.mpr h, ?_, fun item item' hi => ?_⟩⟩
  · exact (updateExpression_spec ..).1
  · rw [jobExpression, happly item, if_neg (hstate.mpr h)] at hi
    exact (Option.some.inj hi).symm

end

/-! ## The item and the record

An item with the attributes of the maps reads as a record, and the record of
the overridden item is the record's update. -/

/-- The text of an attribute; an absent one reads as empty. -/
def AttributeValue.text : Option AttributeValue → String
  | some (.s t) => t
  | _ => ""

/-- `attributevalue.UnmarshalMap`, for the attributes that are written; the
others are those of `r`. -/
def unmarshal (r : JobRecord) (item : Item AttributeValue) : JobRecord :=
  { r with
    state := match item "state" with | some (.state s) => s | _ => r.state
    startedAt := AttributeValue.text (item "started_at")
    workerID := AttributeValue.text (item "worker_id")
    completedAt := AttributeValue.text (item "completed_at")
    cancelledAt := AttributeValue.text (item "cancelled_at")
    enqueuedAt := AttributeValue.text (item "enqueued_at")
    result := AttributeValue.text (item "result")
    sqsReceiptHandle := match item "sqs_receipt_handle" with | some (.handle h) => h | _ => none
    sqsMessageID := match item "sqs_message_id" with | some (.messageID m) => some m | _ => none
    error := match item "error_data" with | some (.json e) => e | _ => none
    errorHistory := match item "error_history" with | some (.history h) => h | _ => .empty
    attempt := match item "attempt" with | some (.n n) => n.getD 0 | _ => 0
    retryDelayMs := match item "retry_delay_ms" with | some (.n n) => n | _ => none
    gsi1sk := AttributeValue.text (item "GSI1SK")
    gsi2pk := AttributeValue.text (item "GSI2PK") }

/-- Setting one attribute is applying one update. -/
theorem unmarshal_set (r : JobRecord) (item : Item AttributeValue) (u : JobUpdate) :
    unmarshal r (item.set (u.key, u.value)) = u.apply (unmarshal r item) := by
  cases u <;>
    simp [unmarshal, Item.set, Function.update, JobUpdate.key, JobUpdate.value, JobUpdate.apply,
      AttributeValue.text]

theorem unmarshal_set_all (r : JobRecord) (item : Item AttributeValue) (updates : List JobUpdate) :
    unmarshal r ((entriesOf updates).foldl Item.set item) =
      applyUpdates updates (unmarshal r item) := by
  induction updates generalizing item with
  | nil => rfl
  | cons u us ih =>
    rw [entriesOf, List.map_cons, List.foldl_cons, ← entriesOf, ih, unmarshal_set]
    rfl

/-- Different attributes are set in any order. -/
theorem set_perm {l l' : List (String × AttributeValue)} (h : l.Perm l')
    (hl : (l.map (·.1)).Nodup) (item : Item AttributeValue) :
    l.foldl Item.set item = l'.foldl Item.set item := by
  refine h.foldl_eq' (fun x hx y hy item => ?_) item
  by_cases hxy : x.1 = y.1
  · rw [List.inj_on_of_nodup_map hl hx hy hxy]
  · exact (Function.update_comm (Ne.symm hxy) (some y.2) (some x.2) item).symm

/-- **The record of the item.** Whatever the order of the map, an applicable
expression makes the item read as the updated record. -/
theorem unmarshal_apply {newState : JobState} {updates order : List JobUpdate}
    {gsi1sk gsi2pk : String} (hkeys : (updates.map (·.key)).Nodup)
    (hstate : ∀ u ∈ updates, u.key ≠ "state") (horder : order.Perm updates) (r : JobRecord)
    {item item' : Item AttributeValue}
    (h : (jobExpression newState order gsi1sk gsi2pk).apply item = some item') :
    unmarshal r item' = (unmarshal r item).update newState updates gsi1sk gsi2pk := by
  have hkeys' : (order.map (·.key)).Nodup := ((horder.map _).nodup_iff).mpr hkeys
  have hstate' : "state" ∉ (entriesOf order).map (·.1) := by
    rw [entriesOf_keys]
    intro hmem
    obtain ⟨u, hu, hk⟩ := List.mem_map.mp hmem
    exact hstate u (horder.mem_iff.mp hu) hk
  obtain ⟨hsk, hpk⟩ := entriesOf_no_gsi order
  rw [← entriesOf_keys] at hkeys'
  -- all attributes are set, in any order
  let tail : List (String × AttributeValue) :=
    [("state", .state newState), ("GSI1SK", .s gsi1sk), ("GSI2PK", .s gsi2pk)]
  have hset : item' = (entriesOf updates ++ tail).foldl Item.set item := by
    obtain ⟨-, hass⟩ := updateExpression_spec (.state newState) (entriesOf order) (.s gsi1sk) (.s gsi2pk)
    rw [jobExpression, UpdateExpression.apply] at h
    split at h
    · rw [UpdateExpression.foldl_assign hass] at h
      rw [← Option.some.inj h]
      refine set_perm ?_ ((allEntries_nodup_iff hkeys' hsk hpk).mpr hstate') item
      exact List.perm_middle.symm.trans ((horder.map _).append_right tail)
    · cases h
  rw [hset, List.foldl_append, JobRecord.update, ← unmarshal_set_all]
  generalize (entriesOf updates).foldl Item.set item = item₀
  simp [tail, unmarshal, Item.set, Function.update, AttributeValue.text]

/-- **Which updates DynamoDB can carry out.** Of the updates of records an
operation makes, those give an expression that assigns each attribute once
whose map has no entry for the state, in any order of the map. -/
theorem updates_applicable (cfg : Config) (o : Op) :
    (o.prog cfg).Only fun c => c.applicable ↔ c.stateless := by
  refine (op_within cfg o).mono fun c ⟨hc, _⟩ => ?_
  cases c with
  | dynamo d =>
    cases d with
    | updateJobItem id s us sk pk =>
      obtain ⟨x, -, rfl, rfl⟩ := hc
      have hkeys := x.updates_keys cfg
      constructor
      · exact fun h => (applicable_iff hkeys).mp (h _ (.refl _))
      · intro h order hperm
        refine (applicable_iff ((hperm.map _).nodup_iff.mpr hkeys)).mpr fun u hu => ?_
        exact h u (hperm.mem_iff.mp hu)
    | _ => exact iff_of_true trivial trivial
  | sqs c => exact iff_of_true trivial trivial
  | proc c => exact iff_of_true trivial trivial

/-- Cancelling an available job makes a map with the state in it, and the
expression assigns the state twice. -/
theorem cancel_not_applicable : ¬ ∀ cfg (o : Op), (o.prog cfg).Only Call.applicable := by
  intro h
  have hone := (h demo (.cancel "j1")).2 (.ok (some (jobToRecord demoJob)))
  have hmarkers := (hone.2 0).2 (.ok ())
  have hupdate := ((hmarkers.2 (.ok ())).2 (.ok (some (jobToRecord demoJob)))).1
  have happ := hupdate [.state .cancelled, .cancelledAt (demo.formatTime 0), .sqsReceiptHandle none]
    (.refl _)
  exact (applicable_iff (Rewrite.updates_keys demo (.cancel _))).mp happ _ List.mem_cons_self rfl

end OjsSqs
