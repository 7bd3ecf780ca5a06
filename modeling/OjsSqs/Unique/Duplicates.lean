import OjsSqs.Atomic.Steps
import OjsSqs.Unique.Keys

/-! # Which pushes are duplicates

A Push with conflict policy `reject` looks twice: at the state of the key's
holder, and at the key itself. The second look alone decides. So the answer
is the one the policy asks for exactly when the key is there as long as a job
with the fingerprint is recent and in a relevant state, and no longer. -/
namespace OjsSqs
open Calls

/-- The error of a Push that is refused as a duplicate. -/
def IsDuplicate (a : Except Error Job) : Prop := ∃ e, a = .error e ∧ e.code? = some .duplicate

/-- The period of a policy: an hour when none is given, or when it is not a
duration. -/
def uniquePeriod (cfg : Config) (policy : UniquePolicy) : Time :=
  if policy.period = "" then 3600 * second
  else (cfg.parseISO8601Duration policy.period).getD (3600 * second)

/-- A stored job with the fingerprint, pushed less than the policy's period
ago and in a state that is relevant to the policy. -/
structure Rival (cfg : Config) (born : String → Time) (policy : UniquePolicy) (fp : String)
    (w : World) (id : String) (r : JobRecord) : Prop where
  stored : w.store.jobs.lookup id = some r
  fingerprint : fingerprintOf cfg r = some fp
  recent : w.clock < born id + uniquePeriod cfg policy
  relevant : isRelevant policy r.state = true

/-- The key is there only while there is a rival, and when it is gone no rival
is left whose own key had less time than the policy's period. -/
structure KeyFits (cfg : Config) (born : String → Time) (policy : UniquePolicy) (fp : String)
    (w : World) : Prop where
  held : (w.store.uniqueKeys.lookup fp).isSome → ∃ id r, Rival cfg born policy fp w id r
  gone : w.store.uniqueKeys.lookup fp = none → ∀ id r, Rival cfg born policy fp w id r →
    uniquePeriod cfg policy ≤ keyTTL cfg r * second

/-! ## What a Push answers -/

section
variable {cfg : Config} {ρ : Rules} (hρ : ρ.faults = false) {w : World} {policy : UniquePolicy}
  {job : Job} {born : String → Time}
include hρ

/-- The raw key decides, whatever the state of its holder. -/
theorem pushUnique_rejects (hc : conflictOf policy = "reject") :
    wp ρ.env.every (pushUnique cfg policy job) (fun a _ =>
      if (w.store.uniqueKeys.lookup (computeFingerprint cfg policy job)).isSome then
        ∃ details, a = .error (duplicateError details)
      else a = .ok none) w := by
  -- the conditional put of a key that is there
  have hclaim : ∀ item, w.store.uniqueKeys.lookup (computeFingerprint cfg policy job) = some item →
      ∀ k : Except Error Unit → M (Except Error (Option Job)),
      (∀ e, k (.error e) = Pure.pure (.error e)) →
      wp ρ.env.every (claimUniqueKey cfg policy (computeFingerprint cfg policy job) job.id >>= k)
        (fun a _ => ∃ details, a = .error (duplicateError details)) w := by
    intro item hk k hk'
    rw [wp_bind]
    refine wp_claimUniqueKey hρ (fun _ t _ _ => ?_) fun t hnone _ => ?_
    · rw [hk']
      exact ⟨_, rfl⟩
    rw [hk] at hnone
    cases hnone
  rw [pushUnique, wp_bind, findExisting, wp_bind]
  cases hk : w.store.uniqueKeys.lookup (computeFingerprint cfg policy job) with
  | none =>
    rw [wp_getUniqueKey_none hρ hk]
    simp only [wp_pure]
    rw [wp_bind]
    refine wp_claimUniqueKey hρ (fun item t hsome _ => ?_) fun t _ _ => rfl
    rw [hk] at hsome
    cases hsome
  | some item =>
    rw [wp_getUniqueKey_some hρ hk]
    simp only [Option.isSome_some, if_true, wp_ite, wp_pure]
    split
    · exact hclaim item hk _ fun _ => rfl
    · rw [resolveConflict, wp_bind]
      cases hr : w.store.jobs.lookup item.jobID with
      | none =>
        rw [wp_getJob_none hρ hr]
        exact hclaim item hk _ fun _ => rfl
      | some r =>
        rw [wp_getJob_some hρ hr]
        simp only [wp_ite, wp_pure, hc, if_true]
        split
        · exact ⟨_, rfl⟩
        · exact hclaim item hk _ fun _ => rfl

/-- A job that is not a duplicate is stored, or its payload is refused. -/
theorem pushNew_not_duplicate (now : Time) (job : Job) :
    wp ρ.env.every (pushNew cfg now job) (fun a _ => ¬IsDuplicate a) w := by
  rw [pushNew]
  split
  · rw [pushScheduled, wp_bind, wp_putJob hρ]
    simp only
    rw [wp_bind, addScheduledJob, wp_addDueJob hρ]
    simp only
    rw [wp_bind, wp_registerQueue hρ]
    rintro ⟨e, he, -⟩
    cases he
  · rw [pushAvailable, wp_bind, wp_putJob hρ]
    simp only
    rw [wp_bind, wp_registerQueue hρ]
    simp only
    rw [wp_bind, wp_sendToSQS cfg hρ]
    cases encodeJob cfg { job with state := .available, enqueuedAt := cfg.formatTime now } with
    | error e =>
      rintro ⟨e', he, hd⟩
      cases he
      cases hd
    | ok body =>
      rintro ⟨e, he, -⟩
      cases he

theorem push_duplicate_iff (hu : job.unique = some policy) (hc : conflictOf policy = "reject") :
    wp ρ.env.every (push cfg job) (fun a _ => IsDuplicate a ↔
      (w.store.uniqueKeys.lookup (computeFingerprint cfg policy job)).isSome = true) w := by
  rw [push, wp_bind]
  refine wp_timeNow fun now _ => ?_
  rw [wp_bind]
  have hid : ∀ {Q : String → World → Prop}, (∀ id, Q id (w.setClock now)) →
      wp ρ.env.every (assignID job) Q (w.setClock now) := by
    intro Q hQ
    rw [assignID]
    split
    · exact wp_newUUIDv7 fun id _ _ _ => hQ id
    · exact hQ _
  refine hid fun id => ?_
  simp only [hu]
  rw [wp_bind]
  refine wp_mono (Env.every_mono _) _ (pushUnique_rejects hρ hc) fun a w₁ ha => ?_
  change if (w.store.uniqueKeys.lookup (computeFingerprint cfg policy job)).isSome then _ else _
    at ha
  split at ha
  · rename_i hk
    obtain ⟨details, rfl⟩ := ha
    exact ⟨fun _ => hk, fun _ => ⟨_, rfl, rfl⟩⟩
  · rename_i hk
    subst ha
    refine wp_mono (Env.every_mono _) _ (pushNew_not_duplicate hρ now _) fun a _ hnot => ?_
    exact ⟨fun h => absurd h hnot, fun h => absurd h hk⟩

end

end OjsSqs
