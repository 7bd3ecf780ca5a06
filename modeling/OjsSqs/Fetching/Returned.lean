import OjsSqs.Fetching.Reach

/-! # What a Fetch returns

A Fetch collects the jobs of its messages. What every message adds, and what
the handling of a message keeps of the stored jobs, holds of the whole Fetch. -/
namespace OjsSqs
open Calls

/-- What one message keeps of the stored jobs, and what its job is. -/
def HandsOut (cfg : Config) (ρ : Rules) (worker : String) (J : Table JobRecord → Prop)
    (P : Job → Prop) : Prop :=
  ∀ now url d w, J w.store.jobs → wp ρ.env.every (fetchMessage cfg now worker url d)
    (fun a w' => J w'.store.jobs ∧ ∀ job, a = some job → P job) w

namespace HandsOut

variable {cfg : Config} {ρ : Rules} {worker : String} {J : Table JobRecord → Prop}
  {P : Job → Prop} (H : HandsOut cfg ρ worker J P) {now : Time} {count : Int} {w : World}
include H

theorem messages {url : String} (ds : List Delivery) {jobs : List Job} (hJ : J w.store.jobs)
    (hjobs : ∀ job ∈ jobs, P job) :
    wp ρ.env.every (fetchMessages cfg now worker url count ds jobs)
      (fun jobs' w' => J w'.store.jobs ∧ ∀ job ∈ jobs', P job) w := by
  induction ds generalizing w jobs with
  | nil => exact ⟨hJ, hjobs⟩
  | cons d ds ih =>
    rw [fetchMessages, wp_ite]
    split
    · exact ⟨hJ, hjobs⟩
    · rw [wp_bind]
      refine wp_mono (Env.every_mono _) _ (H now url d w hJ) fun a w₁ h₁ => ?_
      obtain ⟨hJ₁, ha⟩ := h₁
      cases a with
      | none => exact ih hJ₁ hjobs
      | some job =>
        refine ih hJ₁ fun j hj => ?_
        rcases List.mem_append.mp hj with hj | hj
        · exact hjobs j hj
        · rw [List.mem_singleton.mp hj]
          exact ha job rfl

variable (hρ : ρ.faults = false)
include hρ

theorem queue {url : String} {visSec : Int} (n : Nat) {jobs : List Job} (hJ : J w.store.jobs)
    (hjobs : ∀ job ∈ jobs, P job) :
    wp ρ.env.every (fetchQueue cfg now worker url count visSec n jobs)
      (fun a w' => J w'.store.jobs ∧ ∀ l, a = some l → ∀ job ∈ l, P job) w := by
  have hdone : ∀ jobs : List Job, (∀ job ∈ jobs, P job) →
      ∀ l, some jobs = some l → ∀ job ∈ l, P job := fun jobs h l hl => Option.some.inj hl ▸ h
  induction n generalizing w jobs with
  | zero =>
    rw [fetchQueue]
    split
    · exact ⟨hJ, fun _ hl => by cases hl⟩
    · exact ⟨hJ, hdone jobs hjobs⟩
  | succ n ih =>
    rw [fetchQueue, wp_ite]
    split
    · rw [wp_bind]
      refine wp_receive hρ fun ids _ _ => ?_
      cases (w.sqs.receive visSec ids).1 with
      | nil => exact ⟨hJ, hdone jobs hjobs⟩
      | cons d ds =>
        simp only
        rw [wp_bind]
        exact wp_mono (Env.every_mono _) _ (H.messages (d :: ds) hJ hjobs) fun _ _ h => ih h.1 h.2
    · exact ⟨hJ, hdone jobs hjobs⟩

theorem queues {visSec : Int} (n : Nat) (names : List String) {jobs : List Job}
    (hJ : J w.store.jobs) (hjobs : ∀ job ∈ jobs, P job) :
    wp ρ.env.every (fetchQueues cfg n now worker count visSec names jobs)
      (fun a w' => J w'.store.jobs ∧ ∀ l, a = some l → ∀ job ∈ l, P job) w := by
  induction names generalizing w jobs with
  | nil => exact ⟨hJ, fun l hl => Option.some.inj hl ▸ hjobs⟩
  | cons name names ih =>
    rw [fetchQueues, wp_ite]
    split
    · exact ⟨hJ, fun l hl => Option.some.inj hl ▸ hjobs⟩
    · rw [wp_bind]
      refine (wp_isQueuePaused_eq hρ fun b w' => wp ρ.env.every (if b = true then _ else _) _ w').mpr ?_
      rw [wp_ite]
      split
      · exact ih hJ hjobs
      · rw [wp_bind, wp_getOrCreateQueueURL cfg hρ]
        simp only
        rw [wp_bind]
        have hJ₀ : J (w.openQueue cfg name).store.jobs := by
          rw [World.openQueue_store]
          exact hJ
        refine wp_mono (Env.every_mono _) _ (H.queue hρ n hJ₀ hjobs) fun a w₁ h₁ => ?_
        obtain ⟨hJ₁, ha⟩ := h₁
        cases a with
        | none => exact ⟨hJ₁, fun _ hl => by cases hl⟩
        | some jobs₁ => exact ih hJ₁ (ha jobs₁ rfl)

/-- **The whole Fetch.** -/
theorem fetch {fuel : Nat} {names : List String} {vis : Int} (hJ : J w.store.jobs) :
    wp ρ.env.every (fetch cfg fuel names count worker vis)
      (fun a w' => J w'.store.jobs ∧ ∀ l, a = some l → ∀ job ∈ l, P job) w := by
  rw [OjsSqs.fetch, wp_bind]
  refine wp_timeNow fun t _ => ?_
  have hJ₀ : J (w.setClock t).store.jobs := hJ
  exact H.queues hρ fuel names hJ₀ fun _ hj => absurd hj List.not_mem_nil

end HandsOut
end OjsSqs
