import OjsSqs.Grpc.Convert

/-! # What becomes of the policies of a request

A single request's policies reach the backend with their durations in Go's form,
which the rest of the program does not read as durations. A batch entry's
policies and delay do not reach it at all. -/
namespace OjsSqs

variable {P : ProtoLib}

/-! ## Durations -/

/-- The text denotes the duration that was sent. -/
def Denotes (text : String) (d : Proto.Duration) : Prop := iso8601 text = some d.asDuration

theorem intervalString_not_iso (d : Proto.Duration) : ¬ Denotes (intervalString (some d)) d :=
  durationString_not_iso _ _

theorem parseInterval_iso {s : String} {t : Time} (h : iso8601 s = some t) :
    parseInterval s = none := by
  rw [parseInterval, parseDuration_iso h]
  rfl

/-- **Durations.** Whatever duration is sent, the text that is stored is not an
ISO 8601 duration, and of a stored ISO 8601 duration nothing is reported. -/
theorem durations_lost :
    (∀ (r : Proto.RetryPolicy) d, (r.initialInterval = some d →
        ¬ Denotes (protoRetryToCore r).initialInterval d) ∧
      (r.maxInterval = some d → ¬ Denotes (protoRetryToCore r).maxInterval d)) ∧
    (∀ (u : Proto.UniquePolicy) d, u.period = some d → ¬ Denotes (protoUniqueToCore u).period d) ∧
    (∀ (cfg : Config) (job : Job) r t, job.retry = some r →
      (iso8601 r.initialInterval = some t →
        ((jobToProto (P := P) cfg job).retryPolicy.bind (·.initialInterval)) = none) ∧
      (iso8601 r.maxInterval = some t →
        ((jobToProto (P := P) cfg job).retryPolicy.bind (·.maxInterval)) = none)) ∧
    (∀ (cfg : Config) (job : Job) u t, job.unique = some u → iso8601 u.period = some t →
      ((jobToProto (P := P) cfg job).uniquePolicy.bind (·.period)) = none) := by
  refine ⟨fun r d => ⟨fun h => ?_, fun h => ?_⟩, fun u d h => ?_, fun cfg job r t hr => ⟨fun h => ?_,
    fun h => ?_⟩, fun cfg job u t hu h => ?_⟩
  · rw [protoRetryToCore, h]
    exact intervalString_not_iso d
  · rw [protoRetryToCore, h]
    exact intervalString_not_iso d
  · rw [protoUniqueToCore, h]
    exact intervalString_not_iso d
  · simp only [jobToProto, hr, Option.map_some, Option.bind_some, coreRetryToProto, parseInterval_iso h]
  · simp only [jobToProto, hr, Option.map_some, Option.bind_some, coreRetryToProto, parseInterval_iso h]
  · simp only [jobToProto, hu, Option.map_some, Option.bind_some, coreUniqueToProto, parseInterval_iso h]

/-- A period of two hours keeps the key for one. -/
theorem uniqueTTL_sent {cfg : Config}
    (hiso : ∀ s, (cfg.parseISO8601Duration s).isSome → (iso8601 s).isSome)
    {u : Proto.UniquePolicy} {d : Proto.Duration} (h : u.period = some d) :
    uniqueTTL cfg (protoUniqueToCore u) = 3600 := by
  have hnone : cfg.parseISO8601Duration (protoUniqueToCore u).period = none := by
    cases hparse : cfg.parseISO8601Duration (protoUniqueToCore u).period with
    | none => rfl
    | some t =>
      obtain ⟨t', ht'⟩ := Option.isSome_iff_exists.mp (hiso _ (by rw [hparse]; rfl))
      rw [protoUniqueToCore, h] at ht'
      exact absurd ht' (durationString_not_iso _ _)
  rw [uniqueTTL, hnone]
  exact ite_self _

/-- Ninety seconds are stored as `1m30s`, and `PT1M30S` is reported as nothing. -/
theorem ninety_seconds_lost :
    (protoRetryToCore { initialInterval := some ⟨90, 0⟩ }).initialInterval = "1m30s" ∧
      iso8601 "1m30s" = none ∧ iso8601 "PT1M30S" = some 90000000000 ∧
      (coreRetryToProto { initialInterval := "PT1M30S" }).initialInterval = none :=
  ⟨by decide +kernel, by decide +kernel, by decide +kernel, by decide +kernel⟩

/-! ## Batch entries -/

theorem formatRFC3339_ne_empty (t : Time) : formatRFC3339 t ≠ "" := by
  intro h
  have hlen := congrArg String.length h
  simp only [formatRFC3339, String.length_append] at hlen
  have hz : "Z".length = 1 := rfl
  have hempty : "".length = 0 := rfl
  omega

/-- The options leave nothing to lose. -/
def Plain (options : Option (Proto.EnqueueOptions P)) : Prop :=
  ∀ opts, options = some opts → opts.retry = none ∧ opts.unique = none ∧ opts.delayUntil = none

/-- **Batch entries.** An entry becomes the job of the single request with the
same contents exactly when it has no retry policy, no unique policy and no
delay. -/
theorem batchEntry_agrees_iff (type : String) (args : List P.Value)
    (options : Option (Proto.EnqueueOptions P)) :
    enqueueJobRequestToJob ⟨type, args, options⟩ = enqueueRequestToJob ⟨type, args, options⟩ ↔
      Plain options := by
  cases options with
  | none => exact ⟨fun _ _ h => (by cases h), fun _ => rfl⟩
  | some opts =>
    constructor
    · rintro h _ ⟨⟩
      have hretry : none = opts.retry.map protoRetryToCore := congrArg Job.retry h
      have hunique : none = opts.unique.map protoUniqueToCore := congrArg Job.unique h
      refine ⟨Option.map_eq_none_iff.mp hretry.symm, Option.map_eq_none_iff.mp hunique.symm, ?_⟩
      have hat := congrArg Job.scheduledAt h
      simp only [enqueueJobRequestToJob, enqueueRequestToJob] at hat
      cases hd : opts.delayUntil with
      | none => rfl
      | some t =>
        rw [hd] at hat
        exact absurd hat.symm (formatRFC3339_ne_empty _)
    · intro h
      obtain ⟨hretry, hunique, hdelay⟩ := h opts rfl
      simp only [enqueueJobRequestToJob, enqueueRequestToJob, hretry, hunique, hdelay,
        Option.map_none]

/-- Encoded values, as the runs need them. -/
def demoProto : ProtoLib where
  Value := String
  Struct := String
  marshalValues := fun vs => some ("[" ++ ",".intercalate vs ++ "]")
  marshalStruct := some
  unmarshalValues := fun s => some [some s]
  unmarshalStruct := some

/-- The retry policy of an entry with five attempts is lost. -/
theorem batchEntry_loses_retry :
    let options : Proto.EnqueueOptions demoProto := { retry := some { maxAttempts := 5 } }
    (enqueueJobRequestToJob ⟨"email", [], some options⟩).retry = none ∧
      enqueueJobRequestToJob ⟨"email", [], some options⟩ ≠
        enqueueRequestToJob ⟨"email", [], some options⟩ := by
  refine ⟨rfl, fun h => ?_⟩
  have hretry := congrArg Job.retry h
  cases hretry

end OjsSqs
