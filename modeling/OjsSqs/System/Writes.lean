import OjsSqs.System.Invariant

/-! # The writes of every operation

Each operation of the backend rewrites records in ways of its own, and an
invariant that is guarded against them is kept by it. -/
namespace OjsSqs
open Calls

/-- The rewrites an operation makes. -/
inductive SystemOp.Makes : SystemOp → String → Rewrite → Prop
  | replace {job : Job} {id now : String} : Makes (.job (.push job)) id (.cancel now)
  | fetch {fuel : Nat} {queues : List String} {count vis : Int} {worker id : String} {now : Time}
      {d : Delivery} : Makes (.job (.fetch fuel queues count worker vis)) id (.activate now worker d)
  | expire {fuel : Nat} {queues : List String} {count vis : Int} {worker id : String} :
      Makes (.job (.fetch fuel queues count worker vis)) id .expire
  | ack {id now : String} {result : Option String} :
      Makes (.job (.ack id result)) id (.complete now result)
  | requeue {id t : String} {e : Option JobError} : Makes (.job (.nack id e true)) id (.requeue t)
  | discard {id t : String} {r : JobRecord} {e : Option JobError} :
      Makes (.job (.nack id e false)) id (.discard t r e)
  | retry {id : String} {ms : Int} {r : JobRecord} {e : Option JobError} :
      Makes (.job (.nack id e false)) id (.retry ms r e)
  | cancel {id now : String} : Makes (.job (.cancel id)) id (.cancel now)
  | due {id : String} {now : Time} : Makes (.job .promoteScheduled) id (.promote now)
  | again {id : String} {now : Time} : Makes (.job .promoteRetries) id (.promote now)
  | revive {id : String} {now : Time} : Makes (.job (.retryDeadLetter id)) id (.revive now)
  | cancelled {wfID id now : String} : Makes (.cancelWorkflow wfID) id (.cancel now)

/-- The writes include the rewrites of the operation and what its jobs come
with, and all sends and markers. -/
structure Writes.Admits (W : Writes) (o : SystemOp) : Prop where
  rewrite : ∀ id x, o.Makes id x → W.rewrite id x
  send : ∀ job, W.send job
  mark : ∀ i id, W.mark i id
  bury : ∀ id, W.bury id
  carry : ∀ job ∈ o.newJobs, W.carry job.errors

variable {cfg : Config} {lib : CronLib} {ρ : Rules} {W : Writes} {I : World → Prop} {w w' : World}

/-- **One operation.** -/
theorem Guards.op {o : SystemOp} {a : o.Result}
    (G : Guards cfg (ρ.reserving (o.inUse w)) W I) (hρ : ρ.faults = false) (hW : W.Admits o)
    (h : I w) (hfresh : o.Fresh w)
    (hr : Runs (ρ.reserving (o.inUse w)).env (o.prog cfg lib) w a w') : I w' := by
  have hρ' : (ρ.reserving (o.inUse w)).faults = false := hρ
  have hkeep : (ρ.reserving (o.inUse w)).env.Keeps I (o.prog cfg lib) → I w' :=
    fun hk => (wp_iff_runs _ _ _ _).mp (hk w h) a w' hr
  cases o with
  | job o =>
    cases o with
    | push job =>
      have hcancel : ∀ id now, W.rewrite id (.cancel now) := fun _ _ => hW.rewrite _ _ .replace
      exact (wp_iff_runs _ _ _ _).mp (G.push hfresh.push (.inr hcancel)
        (.inr (hW.carry job (List.mem_singleton_self _))) h) a w' hr
    | pushBatch jobs =>
      have hs : Storable (ρ.reserving _) w jobs :=
        hfresh.storable_of (List.subset_append_left _ w.store.workflows.keys)
      exact (wp_iff_runs _ _ _ _).mp (G.pushBatch hs (fun job hj => .inr (hW.carry job hj)) h) a w' hr
    | fetch fuel queues count worker vis =>
      exact hkeep (G.within (apart_fetch (fun _ => hW.rewrite _ _ .expire)
        fun _ _ _ => hW.rewrite _ _ .fetch).within)
    | ack id result => exact hkeep (G.ack fun _ => hW.rewrite _ _ .ack)
    | nack id e requeue =>
      refine hkeep (G.nack ⟨fun hq t => ?_, fun hq t r => ?_, fun hq ms r => ?_, hW.mark _ _,
        hW.bury _⟩)
      · subst hq
        exact hW.rewrite _ _ .requeue
      · subst hq
        exact hW.rewrite _ _ .discard
      · subst hq
        exact hW.rewrite _ _ .retry
    | cancel id => exact hkeep (G.within (apart_cancel fun _ => hW.rewrite _ _ .cancel).within)
    | promoteScheduled =>
      exact hkeep (G.within (apart_promote (fun _ _ => hW.rewrite _ _ .due)
        fun _ _ => hW.send _).within)
    | promoteRetries =>
      exact hkeep (G.within (apart_promote (fun _ _ => hW.rewrite _ _ .again)
        fun _ _ => hW.send _).within)
    | retryDeadLetter id =>
      exact hkeep (G.within (apart_retryDeadLetter (fun _ => hW.rewrite _ _ .revive)
        fun _ _ => hW.send _).within)
    | deleteDeadLetter id => exact hkeep (G.within (apart_deleteDeadLetter id).within)
  | pauseQueue name => exact hkeep (G.within (within_request (c := .setPausedItem name true) trivial rfl))
  | resumeQueue name =>
    exact hkeep (G.within (within_request (c := .setPausedItem name false) trivial rfl))
  | heartbeat activeJobs vis => exact hkeep (G.within (apart_extendJobs _ activeJobs).within)
  | createWorkflow req => exact hkeep (G.flows.createWorkflow req)
  | cancelWorkflow id =>
    have hcancel : ∀ i, (ρ.reserving _).env.Keeps I (cancel cfg i) := fun i =>
      G.within (apart_cancel fun _ => hW.rewrite _ _ .cancelled).within
    exact hkeep (G.flows.cancelWorkflow hcancel id)
  | registerCron zone cronJob => exact hkeep (G.flows.registerCron cronJob)
  | deleteCron name => exact hkeep (G.flows.deleteCron name)
  | fireCronJobs zone => exact hkeep G.flows.fireCronJobs

/-- A step of the environment, when the invariant looks at the jobs alone. -/
theorem Guards.env (G : Guards cfg ρ W I) (hI : ∀ w w', w'.store.jobs = w.store.jobs → I w → I w')
    (h : I w) {l : Label} (hl : l.isOp = false) (hs : Step cfg ρ w l w') : I w' := by
  cases hs with
  | op o a => cases hl
  | ensureDLQ queue url _ hr =>
    have hkeep := G.within (apart_ensureDLQ queue url).within
      { w with background := w.background.erase (queue, url) } (hI w _ rfl h)
    exact (wp_iff_runs _ _ _ _).mp hkeep () _ hr
  | _ => exact hI w _ rfl h

end OjsSqs
