import OjsSqs.Atomic.Methods
import OjsSqs.Faults.Rules

/-! # The methods when calls may fail

A method reports an error and leaves the world as it was, or it does what it
does without failures. -/
namespace OjsSqs
open Calls

variable {cfg : Config} {ρ : Rules} {w : World} {id : String}

theorem wp_getJob_any {Q : Except Error JobRecord → World → Prop} (herr : ∀ e, Q (.error e) w)
    (hok : ∀ r, w.store.jobs.lookup id = some r → Q (.ok r) w) :
    wp ρ.env.every (getJob id) Q w := by
  rw [getJob, wp_bind]
  refine wp_dynamo_faulty rfl (fun msg => herr _) ?_
  cases hr : w.store.jobs.lookup id with
  | none =>
    simp only [Store.run, hr]
    exact herr _
  | some r =>
    simp only [Store.run, hr]
    exact hok r hr

theorem wp_request_any {context : String} {c : DynamoCall} (hc : c.isPaged = false)
    {Q : Except Error c.Answer → World → Prop} (herr : ∀ e, Q (.error e) w)
    (hok : ∀ a, (w.store.run c).1 = .ok a → Q (.ok a) (w.setStore (w.store.run c).2))
    (hno : ∀ e, (w.store.run c).1 = .error e → (w.store.run c).2 = w.store) :
    wp ρ.env.every (request context c) Q w := by
  rw [request, wp_bind]
  refine wp_dynamo_faulty hc (fun msg => herr _) ?_
  cases hr : (w.store.run c).1 with
  | error e =>
    rw [hno e hr, World.setStore_store]
    exact herr _
  | ok a => exact hok a hr

theorem wp_updateJobState_any {s : JobState} {us : List JobUpdate}
    {Q : Except Error Unit → World → Prop} (herr : ∀ e, Q (.error e) w)
    (hok : ∀ r, w.store.jobs.lookup id = some r → Q (.ok ()) (w.setJob id (r.moved s us))) :
    wp ρ.env.every (updateJobState id s us) Q w := by
  rw [updateJobState, wp_bind]
  refine wp_getJob_any (fun e => herr _) fun r hr => ?_
  refine wp_request_any rfl herr (fun a _ => ?_) fun e he => by cases he
  have hrun := hok r hr
  rw [World.setJob] at hrun
  simp only [Store.run, hr, Option.getD_some]
  exact hrun

theorem wp_isQueuePaused_any {name : String} {Q : Except Error Bool → World → Prop}
    (h : ∀ a, Q a w) : wp ρ.env.every (isQueuePaused name) Q w := by
  rw [isQueuePaused, wp_bind]
  refine wp_dynamo_faulty rfl (fun msg => h _) ?_
  simp only [Store.run]
  cases w.store.queues.lookup name <;> exact h _

theorem wp_getOrCreateQueueURL_any {queue : String} {Q : Except Error String → World → Prop}
    (herr : ∀ e, Q (.error e) w) (hok : Q (.ok (w.urlOf cfg queue)) (w.openQueue cfg queue)) :
    wp ρ.env.every (getOrCreateQueueURL cfg queue) Q w := by
  rw [getOrCreateQueueURL, wp_bind, wp_lookupURL]
  rw [World.urlOf, World.openQueue] at hok
  cases h : w.queueURLs.lookup queue with
  | some url =>
    rw [h] at hok
    exact hok
  | none =>
    rw [h] at hok
    simp only
    rw [wp_bind]
    refine wp_sqs_faulty rfl (fun _ _ h => by cases h) (fun msg => herr _) ?_
    simp only [SqsCall.run, wp_bind, wp_pure]
    rw [wp_goEnsureDLQ, wp_cacheURL]
    exact hok

/-- A receive that does not fail hands out some visible messages. -/
theorem wp_receive_any {url : String} {max : Nat} {vis : Int}
    {Q : Except AwsError (List Delivery) → World → Prop}
    (herr : ∀ e, Q (.error e) w)
    (hok : ∀ ids, w.sqs.mayPick url max ids = true →
      Q (.ok (w.sqs.receive vis ids).1) (w.setSqs (w.sqs.receive vis ids).2)) :
    wp ρ.env.every (sqs (.receiveMessage url max vis)) Q w := by
  intro r w' he
  obtain ⟨ch, q', ha, he, rfl⟩ := Rules.env_sqs he
  cases ch with
  | deliver ids =>
    obtain ⟨hp, hr⟩ := Option.ite_none_right_eq_some.mp he
    cases hr
    exact hok ids hp
  | fault msg =>
    cases he
    exact herr _
  | _ => cases he

end OjsSqs
