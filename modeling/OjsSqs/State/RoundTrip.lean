import OjsSqs.Core.Job
import OjsSqs.Json.Array

/-! # Jobs and records as texts

`JobToRecord` and `RecordToJob` on the texts of the JSON fields. Most fields are
copied; a raw field becomes a string that is empty when the field is absent, a
list of raw texts and a policy become JSON of their own, and the unknown fields
a map of strings. An encoding that fails is only logged, and an attribute that
does not parse leaves its field absent. -/
namespace OjsSqs
open Json (Bytes bytes valid compact nested SameJson marshalArray unmarshalArray)

/-- How deep the values of a JSON text may nest for `encoding/json`. -/
def maxNestingDepth : Nat := 10000

/-- A value and its JSON. -/
structure JsonCodec (α : Type) where
  marshal : α → Option Bytes
  unmarshal : Bytes → Option α

/-- The encoding of a value is there, is not empty, and gives the value back. -/
def JsonCodec.RoundTrips {α : Type} (codec : JsonCodec α) (a : α) : Prop :=
  ∃ text, codec.marshal a = some text ∧ text ≠ [] ∧ codec.unmarshal text = some a

/-- The JSON of the policies, which the common library has. -/
structure PolicyCodecs where
  retry : JsonCodec RetryPolicy
  unique : JsonCodec UniquePolicy

/-- `core.Job` with its raw texts. A list that is nil is empty, and so is a map,
which is given by its entries. -/
structure TextJob where
  id : String := ""
  type : String := ""
  state : String := ""
  queue : String := ""
  args : Option Bytes := none
  metadata : Option Bytes := none
  priority : Option Int := none
  attempt : Int := 0
  maxAttempts : Option Int := none
  timeoutMs : Option Int := none
  createdAt : String := ""
  enqueuedAt : String := ""
  startedAt : String := ""
  completedAt : String := ""
  cancelledAt : String := ""
  scheduledAt : String := ""
  result : Option Bytes := none
  error : Option Bytes := none
  errors : List (Option Bytes) := []
  tags : List String := []
  retry : Option RetryPolicy := none
  unique : Option UniquePolicy := none
  expiresAt : String := ""
  retryDelayMs : Option Int := none
  visibilityTimeoutMs : Option Int := none
  workflowID : String := ""
  workflowStep : Int := 0
  parentResults : List (Option Bytes) := []
  unknownFields : List (String × Option Bytes) := []

/-- `state.JobRecord` with its texts. -/
structure TextRecord where
  id : String
  sk : String
  type : String
  state : String
  queue : String
  args : Bytes
  metadata : Bytes
  priority : Option Int
  attempt : Int
  maxAttempts : Option Int
  timeoutMs : Option Int
  createdAt : String
  enqueuedAt : String
  startedAt : String
  completedAt : String
  cancelledAt : String
  scheduledAt : String
  result : Bytes
  error : Bytes
  errorHistory : Bytes
  tags : List String
  retry : Bytes
  unique : Bytes
  expiresAt : String
  retryDelayMs : Option Int
  visibilityTimeoutMs : Option Int
  workflowID : String
  workflowStep : Int
  workerID : String
  unknownFields : List (String × Bytes)
  parentResults : Bytes
  gsi1pk : String
  gsi1sk : String
  gsi2pk : String
  gsi2sk : String

/-! ## One field -/

/-- `string(raw)` of a value that is present. -/
def attrOfRaw (raw : Option Bytes) : Bytes := raw.getD []

def rawOfAttr (attr : Bytes) : Option Bytes := if attr = [] then none else some attr

/-- The JSON of a list that is not empty. -/
def attrOfList (elements : List (Option Bytes)) : Bytes :=
  if elements = [] then [] else (marshalArray maxNestingDepth elements).getD []

def listOfAttr (attr : Bytes) : List (Option Bytes) :=
  if attr = [] then [] else match unmarshalArray maxNestingDepth attr with
    | some items => items.map some
    | none => []

/-- The JSON of a policy that is present. -/
def attrOfPolicy {α : Type} (codec : JsonCodec α) : Option α → Bytes
  | some policy => (codec.marshal policy).getD []
  | none => []

def policyOfAttr {α : Type} (codec : JsonCodec α) (attr : Bytes) : Option α :=
  if attr = [] then none else codec.unmarshal attr

/-- `RecordToJob` -/
def TextRecord.toJob (codecs : PolicyCodecs) (r : TextRecord) : TextJob where
  id := r.id
  type := r.type
  state := r.state
  queue := r.queue
  attempt := r.attempt
  maxAttempts := r.maxAttempts
  priority := r.priority
  timeoutMs := r.timeoutMs
  createdAt := r.createdAt
  enqueuedAt := r.enqueuedAt
  startedAt := r.startedAt
  completedAt := r.completedAt
  cancelledAt := r.cancelledAt
  scheduledAt := r.scheduledAt
  expiresAt := r.expiresAt
  tags := r.tags
  retryDelayMs := r.retryDelayMs
  visibilityTimeoutMs := r.visibilityTimeoutMs
  workflowID := r.workflowID
  workflowStep := r.workflowStep
  args := rawOfAttr r.args
  metadata := rawOfAttr r.metadata
  result := rawOfAttr r.result
  error := rawOfAttr r.error
  errors := listOfAttr r.errorHistory
  retry := policyOfAttr codecs.retry r.retry
  unique := policyOfAttr codecs.unique r.unique
  parentResults := listOfAttr r.parentResults
  unknownFields := r.unknownFields.map fun field => (field.1, some field.2)

/-- `JobToRecord` -/
def TextJob.toRecord (codecs : PolicyCodecs) (job : TextJob) : TextRecord where
  id := job.id
  sk := "JOB"
  type := job.type
  state := job.state
  queue := job.queue
  attempt := job.attempt
  maxAttempts := job.maxAttempts
  priority := job.priority
  timeoutMs := job.timeoutMs
  createdAt := job.createdAt
  enqueuedAt := job.enqueuedAt
  startedAt := job.startedAt
  completedAt := job.completedAt
  cancelledAt := job.cancelledAt
  scheduledAt := job.scheduledAt
  expiresAt := job.expiresAt
  tags := job.tags
  retryDelayMs := job.retryDelayMs
  visibilityTimeoutMs := job.visibilityTimeoutMs
  workflowID := job.workflowID
  workflowStep := job.workflowStep
  workerID := ""
  gsi1pk := "QUEUE#" ++ job.queue
  gsi1sk := "STATE#" ++ job.state ++ "#" ++ job.createdAt
  gsi2pk := "STATE#" ++ job.state
  gsi2sk := job.createdAt
  args := attrOfRaw job.args
  metadata := attrOfRaw job.metadata
  result := attrOfRaw job.result
  error := attrOfRaw job.error
  errorHistory := attrOfList job.errors
  retry := attrOfPolicy codecs.retry job.retry
  unique := attrOfPolicy codecs.unique job.unique
  parentResults := attrOfList job.parentResults
  unknownFields := job.unknownFields.map fun field => (field.1, attrOfRaw field.2)

/-! ## The fields one by one -/

/-- JSON of any depth. -/
def ValidJson (text : Bytes) : Prop := ∃ limit, valid limit text = true

theorem ValidJson.ne_nil {text : Bytes} (h : ValidJson text) : text ≠ [] := by
  rintro rfl
  obtain ⟨limit, h⟩ := h
  cases h

theorem rawOfAttr_attrOfRaw {raw : Option Bytes} (h : ∀ text ∈ raw, ValidJson text) :
    rawOfAttr (attrOfRaw raw) = raw := by
  cases raw with
  | none => rfl
  | some text => exact if_neg (h text rfl).ne_nil

theorem policyOfAttr_attrOfPolicy {α : Type} {codec : JsonCodec α} {policy : Option α}
    (h : ∀ p ∈ policy, codec.RoundTrips p) : policyOfAttr codec (attrOfPolicy codec policy) = policy := by
  cases policy with
  | none => rfl
  | some p =>
    obtain ⟨text, hmarshal, hne, hunmarshal⟩ := h p rfl
    rw [attrOfPolicy, hmarshal, Option.getD_some, policyOfAttr, if_neg hne, hunmarshal]

/-- Elements that leave room for the array around them come back. -/
theorem listOfAttr_attrOfList {elements : List (Option Bytes)}
    (h : ∀ x ∈ elements, ∀ text ∈ x, valid (maxNestingDepth - 1) text = true) :
    List.Forall₂ (SameJson maxNestingDepth) (listOfAttr (attrOfList elements)) elements := by
  by_cases hne : elements = []
  · rw [hne]
    exact .nil
  · obtain ⟨text, items, hmarshal, htext, hunmarshal, hsame⟩ := Json.unmarshalArray_marshalArray hne h
    have hdepth : maxNestingDepth - 1 + 1 = maxNestingDepth := rfl
    rw [hdepth] at hmarshal hunmarshal hsame
    rw [attrOfList, if_neg hne, hmarshal, Option.getD_some, listOfAttr, if_neg htext, hunmarshal]
    exact hsame

/-- An element that needs all the levels is lost. -/
theorem listOfAttr_nested :
    listOfAttr (attrOfList [some (nested maxNestingDepth)]) = [] := by
  obtain ⟨hmarshal, hunmarshal⟩ := Json.marshalArray_nested maxNestingDepth (by decide)
  rw [attrOfList, if_neg (List.cons_ne_nil _ _), hmarshal, Option.getD_some, listOfAttr, hunmarshal]
  exact ite_self _

/-! ## All fields -/

/-- The fields that are copied as they are: the job without the others. -/
def TextJob.copied (job : TextJob) : TextJob :=
  { job with
    args := none
    metadata := none
    result := none
    error := none
    errors := []
    retry := none
    unique := none
    parentResults := []
    unknownFields := [] }

/-- Two jobs agree on every field, up to the formatting of the JSON in their
lists, and an absent unknown field is as good as an empty one. -/
structure TextJob.Agrees (job job' : TextJob) : Prop where
  copied : job.copied = job'.copied
  args : job.args = job'.args
  metadata : job.metadata = job'.metadata
  result : job.result = job'.result
  error : job.error = job'.error
  errors : List.Forall₂ (SameJson maxNestingDepth) job.errors job'.errors
  retry : job.retry = job'.retry
  unique : job.unique = job'.unique
  parentResults : List.Forall₂ (SameJson maxNestingDepth) job.parentResults job'.parentResults
  unknownFields : List.Forall₂ (fun field field' => field.1 = field'.1 ∧
    attrOfRaw field.2 = attrOfRaw field'.2) job.unknownFields job'.unknownFields

/-- Every raw field of a job is absent or valid JSON. -/
structure TextJob.RawValid (job : TextJob) : Prop where
  args : ∀ text ∈ job.args, ValidJson text
  metadata : ∀ text ∈ job.metadata, ValidJson text
  result : ∀ text ∈ job.result, ValidJson text
  error : ∀ text ∈ job.error, ValidJson text
  errors : ∀ x ∈ job.errors, ∀ text ∈ x, ValidJson text
  parentResults : ∀ x ∈ job.parentResults, ∀ text ∈ x, ValidJson text
  unknownFields : ∀ field ∈ job.unknownFields, ∀ text ∈ field.2, ValidJson text

/-- The policies of a job round-trip. -/
structure TextJob.PoliciesRoundTrip (codecs : PolicyCodecs) (job : TextJob) : Prop where
  retry : ∀ policy ∈ job.retry, codecs.retry.RoundTrips policy
  unique : ∀ policy ∈ job.unique, codecs.unique.RoundTrips policy

/-- Every element of the lists nests a level less than a text may. -/
structure TextJob.Shallow (job : TextJob) : Prop where
  errors : ∀ x ∈ job.errors, ∀ text ∈ x, valid (maxNestingDepth - 1) text = true
  parentResults : ∀ x ∈ job.parentResults, ∀ text ∈ x, valid (maxNestingDepth - 1) text = true

/-- **A job read back from its record** agrees with the job. -/
theorem record_round_trips (codecs : PolicyCodecs) (job : TextJob) (hraw : job.RawValid)
    (hpolicies : job.PoliciesRoundTrip codecs) (hshallow : job.Shallow) :
    ((job.toRecord codecs).toJob codecs).Agrees job where
  copied := rfl
  args := rawOfAttr_attrOfRaw hraw.args
  metadata := rawOfAttr_attrOfRaw hraw.metadata
  result := rawOfAttr_attrOfRaw hraw.result
  error := rawOfAttr_attrOfRaw hraw.error
  errors := listOfAttr_attrOfList hshallow.errors
  retry := policyOfAttr_attrOfPolicy hpolicies.retry
  unique := policyOfAttr_attrOfPolicy hpolicies.unique
  parentResults := listOfAttr_attrOfList hshallow.parentResults
  unknownFields := by
    simp only [TextJob.toRecord, TextRecord.toJob, List.map_map]
    rw [List.forall₂_map_left_iff]
    exact List.forall₂_same.mpr fun field _ => ⟨rfl, rfl⟩

/-- The JSON of a retry policy that names its attempts and its first interval. -/
def retryJson : Bytes := bytes "\x7b\"max_attempts\":5,\"initial_interval\":\"PT2S\"\x7d"

def retryPolicy : RetryPolicy := { maxAttempts := 5, initialInterval := "PT2S" }

/-- Codecs that know this one policy. -/
def oneRetryPolicy : PolicyCodecs where
  retry :=
    { marshal := fun policy => if policy = retryPolicy then some retryJson else none
      unmarshal := fun text => if text = retryJson then some retryPolicy else none }
  unique := { marshal := fun _ => none, unmarshal := fun _ => none }

def failedTextJob : TextJob :=
  { id := "job-123"
    args := some (bytes "[\"test@example.com\"]")
    errors := [some (bytes "\x7b \"message\" : \"<timeout>\" \x7d"), none]
    retry := some retryPolicy
    unknownFields := [("x_custom", some (bytes "\"hello\""))] }

theorem record_round_trips_failed :
    ((failedTextJob.toRecord oneRetryPolicy).toJob oneRetryPolicy).Agrees failedTextJob :=
  record_round_trips oneRetryPolicy failedTextJob
    { args := fun text h => ⟨1, by cases h; decide⟩
      metadata := nofun
      result := nofun
      error := nofun
      errors := by
        intro x hx text h
        simp only [failedTextJob, List.mem_cons, List.not_mem_nil, or_false] at hx
        rcases hx with rfl | rfl <;> cases h
        exact ⟨1, by decide⟩
      parentResults := nofun
      unknownFields := by
        intro field hf text h
        simp only [failedTextJob, List.mem_singleton] at hf
        subst hf
        cases h
        exact ⟨1, by decide⟩ }
    { retry := fun policy h => by
        cases h
        exact ⟨retryJson, by decide, by decide, by decide⟩
      unique := nofun }
    { errors := by
        intro x hx text h
        simp only [failedTextJob, List.mem_cons, List.not_mem_nil, or_false] at hx
        rcases hx with rfl | rfl <;> cases h
        decide
      parentResults := nofun }

/-- A job with one error that needs all the levels. -/
def deepTextJob : TextJob := { id := "job-123", errors := [some (nested maxNestingDepth)] }

theorem record_loses_deep_error : deepTextJob.RawValid ∧ deepTextJob.PoliciesRoundTrip oneRetryPolicy ∧
    ¬ ((deepTextJob.toRecord oneRetryPolicy).toJob oneRetryPolicy).Agrees deepTextJob := by
  have hdeep : ValidJson (nested maxNestingDepth) :=
    ⟨maxNestingDepth, (Json.tight_nested (by decide) (Nat.le_refl maxNestingDepth)).valid⟩
  refine ⟨?_, ⟨nofun, nofun⟩, fun h => ?_⟩
  · refine ⟨nofun, nofun, nofun, nofun, fun x hx text h => ?_, nofun, nofun⟩
    rw [List.mem_singleton.mp hx] at h
    rw [← Option.some.inj h]
    exact hdeep
  · have hlost : ((deepTextJob.toRecord oneRetryPolicy).toJob oneRetryPolicy).errors = [] := by
      simp only [TextJob.toRecord, TextRecord.toJob, deepTextJob, listOfAttr_nested]
    have herrors := h.errors
    rw [hlost] at herrors
    cases herrors

end OjsSqs
