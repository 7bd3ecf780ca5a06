import OjsSqs.Atomic.Methods
import OjsSqs.Faults.Rules

/-! # Ghosts of runs with failures

Most calls matter to a ghost only when they fail. `Notes` says so: as long as
quiet calls are carried out the ghost stays in `I`, and when one fails it goes
over to `J`. The helpers of the backend are proved once for every such ghost. -/
namespace OjsSqs
open Calls

structure Notes {G : Type} (note : Note World Call Answer G) (quiet : Call → Prop) (I : G → Prop)
    (J : Call → G → Prop) : Prop where
  keep : ∀ {c : Call} {r : Answer c} {w w' : World} {g : G}, quiet c → callFailed c r = false →
    I g → I (note c r w w' g)
  fail : ∀ {c : Call} {r : Answer c} {w w' : World} {g : G}, quiet c → callFailed c r = true →
    I g → J c (note c r w w' g)

namespace Notes
variable {G : Type} {note : Note World Call Answer G} {quiet : Call → Prop} {I : G → Prop}
  {J : Call → G → Prop} {ρ : Rules} {w : World} {g : G}

section
variable (hn : Notes note quiet I J) (hg : I g)
include hn hg

theorem dynamo {c : DynamoCall} (hc : c.isPaged = false) (hq : quiet (.dynamo c))
    {Q : Except AwsError c.Answer → World × G → Prop}
    (hfail : ∀ msg g', J (.dynamo c) g' → Q (.error (.other msg)) (w, g'))
    (hrun : ∀ g', I g' → Q (w.store.run c).1 (w.setStore (w.store.run c).2, g')) :
    wp (ρ.env.withGhost note).every (OjsSqs.dynamo c) Q (w, g) :=
  wp_ghost (wp_dynamo_faulty hc (fun msg => hfail msg _ (hn.fail hq rfl hg))
    (hrun _ (hn.keep hq (Store.run_not_failed c _) hg)))

theorem sqs {c : SqsCall} (hc : c.isReceive = false)
    (hb : ∀ url entries, c ≠ .sendMessageBatch url entries) (hq : quiet (.sqs c))
    {Q : Except AwsError c.Answer → World × G → Prop}
    (hfail : ∀ msg g', J (.sqs c) g' → Q (.error (.other msg)) (w, g'))
    (hrun : ∀ g', I g' → Q (c.run w.sqs).1 (w.setSqs (c.run w.sqs).2, g')) :
    wp (ρ.env.withGhost note).every (OjsSqs.sqs c) Q (w, g) :=
  wp_ghost (wp_sqs_faulty hc hb (fun msg => hfail msg _ (hn.fail hq rfl hg))
    (hrun _ (hn.keep hq (SqsCall.run_not_failed c _) hg)))

theorem timeNow (hq : quiet (.proc .now)) {Q : Time → World × G → Prop}
    (h : ∀ t g', ρ.mayShow w t → I g' → Q t (w.setClock t, g')) :
    wp (ρ.env.withGhost note).every OjsSqs.timeNow Q (w, g) :=
  wp_ghost (wp_timeNow fun t ht => h t _ ht (hn.keep hq rfl hg))

theorem getJob {id : String} (hq : quiet (.dynamo (.getJobItem id)))
    {Q : Except Error JobRecord → World × G → Prop}
    (hfail : ∀ e g', J (.dynamo (.getJobItem id)) g' → Q (.error e) (w, g'))
    (hnone : ∀ e g', w.store.jobs.lookup id = none → I g' → Q (.error e) (w, g'))
    (hsome : ∀ r g', w.store.jobs.lookup id = some r → I g' → Q (.ok r) (w, g')) :
    wp (ρ.env.withGhost note).every (OjsSqs.getJob id) Q (w, g) := by
  rw [OjsSqs.getJob, wp_bind]
  refine hn.dynamo hg rfl hq (fun msg g' => hfail _ g') fun g' hg' => ?_
  simp only [Store.run, World.setStore_store]
  cases hr : w.store.jobs.lookup id with
  | none => exact hnone _ g' hr hg'
  | some r => exact hsome r g' hr hg'

/-- A method of one request that always succeeds when it is carried out. -/
theorem request {context : String} {c : DynamoCall} (hc : c.isPaged = false)
    (hq : quiet (.dynamo c)) {a : c.Answer} (hok : (w.store.run c).1 = .ok a)
    {Q : Except Error c.Answer → World × G → Prop}
    (hfail : ∀ e g', J (.dynamo c) g' → Q (.error e) (w, g'))
    (hrun : ∀ g', I g' → Q (.ok a) (w.setStore (w.store.run c).2, g')) :
    wp (ρ.env.withGhost note).every (OjsSqs.request context c) Q (w, g) := by
  rw [OjsSqs.request, wp_bind]
  refine hn.dynamo hg hc hq (fun msg g' => hfail _ g') fun g' hg' => ?_
  rw [hok]
  exact hrun g' hg'

theorem getOrCreateQueueURL (cfg : Config) {queue : String}
    (hp : ∀ c : ProcCall, c ≠ .now → c ≠ .newUUIDv7 → quiet (.proc c))
    (hq : quiet (.sqs (.createQueue (sqsQueueName cfg queue))))
    {Q : Except Error String → World × G → Prop}
    (hfail : ∀ e g', J (.sqs (.createQueue (sqsQueueName cfg queue))) g' → Q (.error e) (w, g'))
    (hok : ∀ g', I g' → Q (.ok (w.urlOf cfg queue)) (w.openQueue cfg queue, g')) :
    wp (ρ.env.withGhost note).every (OjsSqs.getOrCreateQueueURL cfg queue) Q (w, g) := by
  have hproc : ∀ {c : ProcCall} {a : c.Answer} {w w' : World} {g : G}, c ≠ .now →
      c ≠ .newUUIDv7 → I g → I (note (.proc c) a w w' g) :=
    fun hnow huuid hg => hn.keep (hp _ hnow huuid) rfl hg
  rw [OjsSqs.getOrCreateQueueURL, wp_bind]
  refine wp_ghost ?_
  rw [← proc, wp_lookupURL]
  have hg₁ := @hproc (.lookupURL queue) (w.queueURLs.lookup queue) w w g (fun h => by cases h)
    (fun h => by cases h) hg
  simp only [World.urlOf, World.openQueue] at hok
  cases hurl : w.queueURLs.lookup queue with
  | some url =>
    rw [hurl] at hok hg₁
    exact hok _ hg₁
  | none =>
    rw [hurl] at hok hg₁
    simp only
    rw [wp_bind]
    refine hn.sqs hg₁ rfl (fun _ _ hd => by cases hd) hq (fun msg g' => hfail _ g') fun g' hg' => ?_
    simp only [SqsCall.run]
    rw [wp_bind]
    refine wp_ghost ?_
    rw [← proc, wp_goEnsureDLQ, wp_bind]
    refine wp_ghost ?_
    rw [← proc, wp_cacheURL]
    refine hok _ (hproc (fun h => by cases h) (fun h => by cases h) ?_)
    exact hproc (fun h => by cases h) (fun h => by cases h) hg'

end

end Notes
end OjsSqs
