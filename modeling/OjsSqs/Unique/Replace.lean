import OjsSqs.Unique.History

/-! # Pushes that replace

With the conflict policy `replace` a Push cancels the holder of the key and
goes on to take the key itself. The key is only taken when it is free, and
Cancel does not free it: the new job is refused after the old one is gone. -/
namespace OjsSqs
open Calls

section
variable (cfg : Config) (policy : UniquePolicy) (fp id : String) (w w' : World)

/-- The new job is stored and has the key; the old one is cancelled. -/
structure Replaced (created : Job) : Prop where
  cancelled : ∃ r, w'.store.jobs.lookup id = some r ∧ r.state = .cancelled
  stored : w'.store.jobs.lookup created.id = some (jobToRecord created)
  key : ∃ item, w'.store.uniqueKeys.lookup fp = some item ∧ item.jobID = created.id

/-- The old job has been left alone. -/
structure LeftAlone : Prop where
  record : w'.store.jobs.lookup id = w.store.jobs.lookup id
  messages : w'.sqs.messagesOf id = w.sqs.messagesOf id
  key : w'.store.uniqueKeys.lookup fp = w.store.uniqueKeys.lookup fp

/-- The new job has replaced the old one, or an error has left that alone. -/
def ReplacesOrKeeps : Except Error Job → Prop
  | .ok created => Replaced fp id w' created
  | .error _ => LeftAlone fp id w w'

end

section
variable {cfg : Config} {ρ : Rules} (hρ : ρ.faults = false) {w : World} {policy : UniquePolicy}
  {job : Job} {fp id : String} {r : JobRecord} {item : UniqueItem}

include hρ

/-- A job that is not terminal is cancelled; no key is freed. -/
theorem cancel_cancels (hr : w.store.jobs.lookup id = some r)
    (ht : isTerminalState r.state = false) :
    wp ρ.env.every (cancel cfg id) (fun a w' => (∃ j, a = .ok j) ∧
      (∃ r', w'.store.jobs.lookup id = some r' ∧ r'.state = .cancelled) ∧
      w'.store.uniqueKeys = w.store.uniqueKeys) w := by
  rw [cancel, wp_bind, wp_getJob_some hρ hr]
  simp only [ht, Bool.false_eq_true, if_false]
  rw [wp_bind]
  refine wp_nowFormatted cfg fun t _ => ?_
  rw [wp_bind, wp_dropMessage cfg hρ, wp_bind, removeScheduledJob, wp_removeDueJob hρ, wp_bind,
    removeRetryJob, wp_removeDueJob hρ, wp_bind]
  have hr' : ((((w.setClock t).dropMessage cfg r).removeDue .scheduled id).removeDue .retry
      id).store.jobs.lookup id = some r := by
    simp only [World.removeDue, Store.setDue, World.dropMessage_store]
    exact hr
  rw [wp_updateJobState_some hρ hr']
  refine ⟨⟨_, rfl⟩, ⟨_, World.setJob_lookup _ _, rfl⟩, ?_⟩
  simp only [World.setJob, World.removeDue, Store.setDue, World.dropMessage_store]
  rfl

/-- A job in a terminal state is not cancelled. -/
theorem cancel_refuses (hr : w.store.jobs.lookup id = some r)
    (ht : isTerminalState r.state = true) :
    wp ρ.env.every (cancel cfg id)
      (fun a w' => (∃ e, a = .error e ∧ e.code? = some .conflict) ∧ w' = w) w := by
  rw [cancel, wp_bind, wp_getJob_some hρ hr]
  simp only [ht, if_true, wp_pure]
  exact ⟨⟨_, rfl, rfl⟩, trivial⟩

/-- The unique part of a Push that replaces: it ends in an error, and the
holder is cancelled unless it was terminal. -/
theorem pushUnique_replaces (hc : policy.onConflict = "replace")
    (hk : w.store.uniqueKeys.lookup (computeFingerprint cfg policy job) = some item)
    (hne : item.jobID ≠ "") (hr : w.store.jobs.lookup item.jobID = some r)
    (hrel : isRelevant policy r.state = true) :
    wp ρ.env.every (pushUnique cfg policy job) (fun a w' => (∃ e, a = .error e) ∧
      if isTerminalState r.state then w' = w
      else ∃ r', w'.store.jobs.lookup item.jobID = some r' ∧ r'.state = .cancelled) w := by
  have hconflict : conflictOf policy = "replace" := by
    rw [conflictOf, hc]
    rfl
  rw [pushUnique, wp_bind, findExisting, wp_bind, wp_getUniqueKey_some hρ hk]
  simp only [if_neg hne]
  rw [resolveConflict, wp_bind, wp_getJob_some hρ hr]
  simp only [hrel, hconflict, if_true, wp_ite]
  rw [if_neg (by decide), if_neg (by decide), wp_bind]
  cases ht : isTerminalState r.state with
  | true =>
    refine wp_mono (Env.every_mono _) _ (cancel_refuses hρ hr ht) ?_
    rintro a w' ⟨⟨e, rfl, he⟩, rfl⟩
    simp only [he]
    rw [wp_ite, if_neg (by decide)]
    exact ⟨⟨_, rfl⟩, rfl⟩
  | false =>
    refine wp_mono (Env.every_mono _) _ (cancel_cancels hρ hr ht) ?_
    rintro a w' ⟨⟨j, rfl⟩, hcancelled, hkeys⟩
    simp only [wp_pure]
    rw [wp_bind]
    -- the key is still the old job's
    refine wp_claimUniqueKey hρ (fun _ t _ _ => ⟨⟨_, rfl⟩, hcancelled⟩) fun t hnone _ => ?_
    rw [hkeys, hk] at hnone
    cases hnone

end

/-- **When a replacing Push replaces or keeps.** For every job whose key is held
by a stored job in a relevant state it does so if and only if the holder is in
a terminal state: then it is an error that leaves the holder alone. -/
theorem push_replaces_or_keeps {cfg : Config} {ρ : Rules} {w w' : World} {job : Job}
    {policy : UniquePolicy} {item : UniqueItem} {r : JobRecord} {a : Except Error Job}
    (hρ : ρ.faults = false) (hu : job.unique = some policy) (hc : policy.onConflict = "replace")
    (hk : w.store.uniqueKeys.lookup (computeFingerprint cfg policy job) = some item)
    (hne : item.jobID ≠ "") (hr : w.store.jobs.lookup item.jobID = some r)
    (hrel : isRelevant policy r.state = true) (hrun : Runs ρ.env (push cfg job) w a w') :
    ReplacesOrKeeps (computeFingerprint cfg policy job) item.jobID w w' a ↔
      isTerminalState r.state = true := by
  refine (wp_iff_runs _ _ (fun a w' => ReplacesOrKeeps (computeFingerprint cfg policy job)
    item.jobID w w' a ↔ isTerminalState r.state = true) _).mp ?_ a w' hrun
  rw [push, wp_bind]
  refine wp_timeNow fun now _ => ?_
  rw [wp_bind]
  have hid : ∀ {Q : String → World → Prop}, (∀ id, Q id (w.setClock now)) →
      wp ρ.env.every (assignID job) Q (w.setClock now) := by
    intro Q hQ
    rw [assignID]
    split
    · exact wp_newUUIDv7 fun id _ _ _ => hQ id
    · exact hQ _
  refine hid fun id => ?_
  simp only [hu]
  rw [wp_bind]
  refine wp_mono (Env.every_mono _) _ (pushUnique_replaces hρ hc hk hne hr hrel) ?_
  rintro a w₁ ⟨⟨e, rfl⟩, hw₁⟩
  simp only [wp_pure]
  cases ht : isTerminalState r.state with
  | true =>
    rw [ht, if_pos rfl] at hw₁
    subst hw₁
    exact iff_of_true ⟨rfl, rfl, rfl⟩ rfl
  | false =>
    rw [ht, if_neg (by decide)] at hw₁
    obtain ⟨r', hr', hs⟩ := hw₁
    refine iff_of_false (fun hkept => ?_) (by decide)
    have hrecord : w₁.store.jobs.lookup item.jobID = w.store.jobs.lookup item.jobID := hkept.record
    rw [hr', hr] at hrecord
    cases hrecord
    rw [hs] at ht
    cases ht

/-! ## The holder is cancelled, the new job refused -/

/-- The mail with conflict policy `replace`; holders in the given states count. -/
def letter (id : String) (states : List String) : Job :=
  { demoJob with id := id, unique := some { onConflict := "replace", states := states } }

/-- The letter `j1` has been pushed; it holds the key. -/
def letterWorld (r : JobRecord) : World where
  store := {
    jobs := AList.insert "j1" r ∅
    uniqueKeys := AList.insert (computeFingerprint demo {} demoJob) ⟨"j1", 3600⟩ ∅ }

/-- A completed letter is kept: its Cancel is a conflict, and the Push an error. -/
theorem push_replaces_or_keeps_completed : ∃ (w' : World) (e : Error),
    Runs (Rules.env {}) (push demo (letter "j2" ["completed"]))
      (letterWorld { jobToRecord (letter "j1" []) with state := .completed }) (.error e) w' ∧
    ReplacesOrKeeps (computeFingerprint demo {} demoJob) "j1"
      (letterWorld { jobToRecord (letter "j1" []) with state := .completed }) w' (.error e) := by
  have hrun : ((script (Rules.act {}) [.tick 0, .ok, .ok, .ok]
      (push demo (letter "j2" ["completed"]))
      (letterWorld { jobToRecord (letter "j1" []) with state := .completed })).map
      fun x => x.1.toOption.isNone) = some true := rfl
  obtain ⟨⟨a, w'⟩, hrun, hnone⟩ := Option.map_eq_some_iff.mp hrun
  cases a with
  | ok job => cases hnone
  | error e =>
    have hpush : Runs (Rules.env {}) (push demo (letter "j2" ["completed"])) _ (.error e) w' :=
      script_runs _ hrun
    exact ⟨w', e, hpush, (push_replaces_or_keeps rfl rfl rfl rfl (by decide) rfl rfl hpush).mpr rfl⟩

/-- A waiting letter is cancelled, and the letter that was to replace it is
refused as its duplicate. -/
theorem replacing_push_loses_both : ¬ ∀ (cfg : Config) (ρ : Rules) (w w' : World) (job : Job)
    (policy : UniquePolicy) (item : UniqueItem) (r : JobRecord) (a : Except Error Job),
    ρ.faults = false → job.unique = some policy → policy.onConflict = "replace" →
    w.store.uniqueKeys.lookup (computeFingerprint cfg policy job) = some item →
    item.jobID ≠ "" → w.store.jobs.lookup item.jobID = some r →
    isRelevant policy r.state = true → Runs ρ.env (push cfg job) w a w' →
    ReplacesOrKeeps (computeFingerprint cfg policy job) item.jobID w w' a := by
  intro hall
  have hrun : ((script (Rules.act {}) [.tick 0, .ok, .ok, .ok, .tick 0, .ok, .ok, .ok, .ok, .tick 0,
      .ok] (push demo (letter "j2" [])) (letterWorld (jobToRecord (letter "j1" [])))).map
      fun x => (x.1.toOption.isNone, (x.2.store.jobs.lookup "j1").map (·.state))) =
      some (true, some .cancelled) := rfl
  obtain ⟨⟨a, w'⟩, hrun, hout⟩ := Option.map_eq_some_iff.mp hrun
  have h := hall demo {} _ w' (letter "j2" []) _ ⟨"j1", 3600⟩ (jobToRecord (letter "j1" [])) a rfl
    rfl rfl rfl (by decide) rfl rfl (script_runs _ hrun)
  cases a with
  | ok j => cases hout
  | error e =>
    have hrecord : w'.store.jobs.lookup "j1" = _ := h.record
    rw [hrecord] at hout
    cases hout

end OjsSqs
