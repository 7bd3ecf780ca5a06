import OjsSqs.System.Operations
import OjsSqs.System.Invariant
import OjsSqs.System.Pushing

/-! # What is kept by all moves of records

`UpdateJobState` reads a record before it updates it, so that no update makes a
record of its own. An invariant of the tables that survives the move of a stored
record is kept by every operation that stores no job and writes no queue. -/
namespace OjsSqs
open Calls

/-- The call writes a record or a queue. -/
def Call.writesTables : Call → Bool
  | .dynamo (.putJobItem _) | .dynamo (.updateJobItem _ _ _ _ _) | .dynamo (.putQueueItem _)
  | .dynamo (.setPausedItem _ _) | .dynamo (.addCompleted _) => true
  | _ => false

structure KeptByMoves (ρ : Rules) (I : World → Prop) : Prop where
  aside : ∀ (c : Call) w (a : Answer c) w', c.writesTables = false → c.ofJobs = true → I w →
    ρ.env c w a w' → I w'
  moved : ∀ w id r s us, I w → w.store.jobs.lookup id = some r → I (w.setJob id (r.moved s us))

namespace KeptByMoves

variable {cfg : Config} {ρ : Rules} (hρ : ρ.faults = false) {I : World → Prop}
  (K : KeptByMoves ρ I)
include K

theorem only {α : Type} {p : M α} (hp : p.Only fun c => c.writesTables = false ∧ c.ofJobs = true) :
    ρ.env.Keeps I p := fun _ h => hp.keeps I (fun c w a w' hc => K.aside c w a w' hc.1 hc.2) h

theorem getJob (id : String) : ρ.env.Keeps I (OjsSqs.getJob id) := K.only (only_getJob ⟨rfl, rfl⟩)

include hρ

theorem updateJobState (id : String) (s : JobState) (us : List JobUpdate) :
    ρ.env.Keeps I (OjsSqs.updateJobState id s us) := by
  intro w h
  cases hr : w.store.jobs.lookup id with
  | none =>
    rw [wp_updateJobState_none hρ hr]
    exact h
  | some r =>
    rw [wp_updateJobState_some hρ hr]
    exact K.moved w id r s us h hr

theorem cancel (id : String) : ρ.env.Keeps I (OjsSqs.cancel cfg id) := by
  refine keeps_bind (K.getJob id) fun a => ?_
  split
  · exact keeps_pure _
  · split
    · exact keeps_pure _
    · have hnow : ρ.env.Keeps I (nowFormatted cfg) :=
        K.only (Prog.only_bind (Prog.only_perform ⟨rfl, rfl⟩) fun _ => Prog.only_pure _)
      have hdrop : ∀ r, ρ.env.Keeps I (dropMessage cfg r) := by
        intro r
        rw [dropMessage]
        split
        · exact keeps_pure _
        · refine keeps_bind (K.only (only_queueURL cfg _ ⟨rfl, rfl⟩ (fun _ => ⟨rfl, rfl⟩)
            (fun _ => ⟨rfl, rfl⟩) fun _ => ⟨rfl, rfl⟩)) fun a => ?_
          split
          · exact keeps_pure _
          · exact keeps_bind (K.only (Prog.only_perform ⟨rfl, rfl⟩)) fun _ => keeps_pure _
      refine keeps_bind hnow fun now => keeps_bind (hdrop _) fun _ => ?_
      refine keeps_bind (K.only (only_request (c := .deleteDueItem .scheduled id) ⟨rfl, rfl⟩))
        fun _ => ?_
      refine keeps_bind (K.only (only_request (c := .deleteDueItem .retry id) ⟨rfl, rfl⟩))
        fun _ => ?_
      exact keeps_bind (K.updateJobState hρ id _ _) fun _ => keeps_pure _

theorem pushUnique (policy : UniquePolicy) (job : Job) :
    ρ.env.Keeps I (OjsSqs.pushUnique cfg policy job) := by
  have hresolve : ∀ fp id, ρ.env.Keeps I (resolveConflict cfg policy fp id) := by
    intro fp id
    refine keeps_bind (K.getJob id) fun a => ?_
    split
    · exact keeps_pure _
    · split
      · split
        · exact keeps_pure _
        · split
          · exact keeps_pure _
          · split
            · refine keeps_bind (K.cancel hρ id) fun a => ?_
              split
              · split <;> exact keeps_pure _
              · exact keeps_pure _
            · exact keeps_pure _
      · exact keeps_pure _
  have hfind : ∀ fp, ρ.env.Keeps I (findExisting cfg policy fp) := by
    intro fp
    have hkey : (getUniqueKey fp).Only fun c => c.writesTables = false ∧ c.ofJobs = true := by
      refine Prog.only_bind (Prog.only_perform ⟨rfl, rfl⟩) fun a => ?_
      split <;> exact Prog.only_pure _
    refine keeps_bind (K.only hkey) fun a => ?_
    split
    · exact keeps_pure _
    · split
      · exact keeps_pure _
      · exact hresolve _ _
  have hclaim : ∀ fp, (claimUniqueKey cfg policy fp job.id).Only fun c =>
      c.writesTables = false ∧ c.ofJobs = true := by
    intro fp
    refine Prog.only_bind (Prog.only_bind (Prog.only_perform ⟨rfl, rfl⟩) fun t =>
      only_request (c := .putUniqueItem _ _ _) ⟨rfl, rfl⟩) fun a => ?_
    split
    · split <;> exact Prog.only_pure _
    · exact Prog.only_pure _
  refine keeps_bind (hfind _) fun a => ?_
  split
  · exact keeps_pure _
  · exact keeps_pure _
  · refine keeps_bind (K.only (hclaim _)) fun a => ?_
    split <;> exact keeps_pure _

theorem fetchMessage (now : Time) (worker url : String) (d : Delivery) :
    ρ.env.Keeps I (OjsSqs.fetchMessage cfg now worker url d) := by
  rw [OjsSqs.fetchMessage]
  split
  · exact keeps_pure _
  · split
    · refine keeps_bind (K.updateJobState hρ _ _ _) fun _ => ?_
      exact keeps_bind (K.only (Prog.only_perform ⟨rfl, rfl⟩)) fun _ => keeps_pure _
    · refine keeps_bind (K.updateJobState hρ _ _ _) fun a => ?_
      split
      · exact keeps_pure _
      · refine keeps_bind (K.getJob _) fun a => ?_
        split <;> exact keeps_pure _

theorem fetchQueue (now : Time) (worker url : String) (count visSec : Int) (fuel : Nat)
    (jobs : List Job) : ρ.env.Keeps I (OjsSqs.fetchQueue cfg now worker url count visSec fuel jobs) := by
  have hmessages : ∀ ds jobs, ρ.env.Keeps I (fetchMessages cfg now worker url count ds jobs) := by
    intro ds
    induction ds with
    | nil => exact fun _ => keeps_pure _
    | cons d ds ih =>
      intro jobs
      rw [fetchMessages]
      split
      · exact keeps_pure _
      · refine keeps_bind (K.fetchMessage hρ now worker url d) fun a => ?_
        split <;> exact ih _
  induction fuel generalizing jobs with
  | zero => exact keeps_pure _
  | succ fuel ih =>
    rw [OjsSqs.fetchQueue]
    split
    · refine keeps_bind (K.only (Prog.only_perform ⟨rfl, rfl⟩)) fun a => ?_
      split
      · exact keeps_pure _
      · exact keeps_pure _
      · exact keeps_bind (hmessages _ jobs) fun _ => ih _
    · exact keeps_pure _

theorem fetch (fuel : Nat) (queues : List String) (count : Int) (worker : String) (vis : Int) :
    ρ.env.Keeps I (OjsSqs.fetch cfg fuel queues count worker vis) := by
  refine keeps_bind (K.only (Prog.only_perform ⟨rfl, rfl⟩)) fun now => ?_
  generalize ([] : List Job) = jobs
  induction queues generalizing jobs with
  | nil => exact keeps_pure _
  | cons queue queues ih =>
    rw [fetchQueues]
    split
    · exact keeps_pure _
    · have hpaused : (isQueuePaused queue).Only fun c => c.writesTables = false ∧ c.ofJobs = true := by
        refine Prog.only_bind (Prog.only_perform ⟨rfl, rfl⟩) fun a => ?_
        split <;> exact Prog.only_pure _
      refine keeps_bind (K.only hpaused) fun a => ?_
      split
      · exact ih jobs
      · refine keeps_bind (K.only (only_queueURL cfg _ ⟨rfl, rfl⟩ (fun _ => ⟨rfl, rfl⟩)
          (fun _ => ⟨rfl, rfl⟩) fun _ => ⟨rfl, rfl⟩)) fun a => ?_
        split
        · exact ih jobs
        · refine keeps_bind (K.fetchQueue hρ now worker _ count _ fuel jobs) fun a => ?_
          split
          · exact keeps_pure _
          · exact ih _

end KeptByMoves
end OjsSqs
