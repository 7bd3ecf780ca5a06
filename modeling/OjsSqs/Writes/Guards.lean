import OjsSqs.Faults.Promote
import OjsSqs.Writes.Flows

/-! # Invariants the writes keep

Which jobs an operation may write depends on the world it runs in: a new job
has an identifier no stored job has, and a promoted one is sent under the
identifier it is stored under. `Guards` connects writes with an invariant of the
world: calls within the writes keep it, and in a world that meets it jobs of
new identifiers may be stored. Each operation then keeps the invariant when
the writes include its own rewrites. -/
namespace OjsSqs
open Calls

structure Guards (cfg : Config) (ρ : Rules) (W : Writes) (I : World → Prop) : Prop where
  keeps : ∀ (c : Call) w (a : Answer c) w', W.allows cfg c → I w → ρ.env c w a w' → I w'
  stores : ∀ w job, I w → w.store.jobs.lookup job.id = none → job.attempt = 0 →
    job.errors = [] ∨ W.carry job.errors → W.Stores job
  named : ∀ w, I w → w.NamedJobs

theorem Rules.env_tick {ρ : Rules} {w : World} {t : Time} (h : ρ.mayShow w t) :
    ρ.env (.proc .now) w t (w.setClock t) := by
  refine ⟨.tick t, ?_⟩
  have hadmit : ρ.admits w (.tick t) = true := by
    cases hp : ρ.timePasses with
    | true => simp [Rules.admits, hp]
    | false => simp [Rules.admits, h.2 hp]
  rw [Rules.act, if_pos hadmit, World.act, World.actProc, if_pos h.1]
  rfl

namespace Guards

variable {cfg : Config} {ρ : Rules} {W : Writes} {I : World → Prop} (G : Guards cfg ρ W I)
  {α : Type} {w : World}
include G

theorem within {p : M α} (hp : Within cfg W p) : ρ.env.Keeps I p := fun _ h =>
  hp.keeps I (fun c w a w' hc => G.keeps c w a w' hc.1) h

theorem setClock (h : I w) {t : Time} (ht : ρ.mayShow w t) : I (w.setClock t) :=
  G.keeps (.proc .now) w t _ trivial h (Rules.env_tick ht)

/-! ## Push and PushBatch -/

/-- A Push, when the jobs it may cancel may be cancelled. -/
theorem push {job : Job} (hfresh : job.id = "" ∨ w.store.jobs.lookup job.id = none)
    (hc : job.unique = none ∨ ∀ id now, W.rewrite id (.cancel now))
    (he : job.errors = [] ∨ W.carry job.errors) (h : I w) :
    wp ρ.env.every (push cfg job) (fun _ => I) w := by
  rw [OjsSqs.push, wp_bind]
  refine wp_timeNow fun t ht => ?_
  have h₁ := G.setClock h ht
  rw [wp_bind]
  refine wp_assignID hfresh fun i hi _ _ => ?_
  simp only
  have hid : ({ job with id := i, createdAt := cfg.formatTime t, attempt := 0 } : Job).id = i := rfl
  have hnew : ({ job with id := i, createdAt := cfg.formatTime t, attempt := 0 } : Job).attempt = 0 :=
    rfl
  have he : ({ job with id := i, createdAt := cfg.formatTime t, attempt := 0 } : Job).errors = [] ∨
    W.carry ({ job with id := i, createdAt := cfg.formatTime t, attempt := 0 } : Job).errors := he
  generalize ({ job with id := i, createdAt := cfg.formatTime t, attempt := 0 } : Job) = j at hid hnew he
  have hnone : (w.setClock t).store.jobs.lookup j.id = none := by
    rw [hid]
    exact hi
  cases hu : job.unique with
  | none => exact G.within (apart_pushNew (G.stores _ j h₁ hnone hnew he)).within _ h₁
  | some policy =>
    have hc := hc.resolve_left fun hn => by rw [hn] at hu; cases hu
    simp only
    rw [wp_bind]
    refine wp_mono (Env.every_mono _) _ (G.within (apart_pushUnique hc).within _ h₁) fun a w₂ h₂ => ?_
    cases a with
    | error e => exact h₂
    | ok found => cases found with
      | some existing => exact h₂
      | none =>
        exact G.within (apart_pushNew (G.stores _ (sortUniqueKeys policy j) h₁ hnone hnew he)).within _ h₂

/-- A job of the backend's own: a step or a callback. -/
theorem pushPlain {job : Job} (hid : job.id = "") (hu : job.unique = none) (he : job.errors = []) :
    ρ.env.Keeps I (OjsSqs.push cfg job) := fun _ h => G.push (.inl hid) (.inl hu) (.inl he) h

theorem storeBatch {now : Time} {rest : List Job} (done : List Job) (hrest : Storable ρ w rest)
    (he : ∀ job ∈ rest, job.errors = [] ∨ W.carry job.errors) (hdone : ∀ job ∈ done, W.send job) (h : I w) :
    wp ρ.env.every (OjsSqs.storeBatch cfg now rest done) (fun a w' =>
      I w' ∧ ∀ l, a = .ok l → ∀ job ∈ l, W.send job) w := by
  induction rest generalizing w done with
  | nil => exact ⟨h, fun l hl => Except.ok.inj hl ▸ hdone⟩
  | cons job rest ih =>
    rw [OjsSqs.storeBatch, wp_bind]
    refine wp_assignID (hrest.fresh job List.mem_cons_self) fun i hn hi hne => ?_
    simp only
    generalize hj : ({ job with
      id := i
      state := .available
      attempt := 0
      createdAt := cfg.formatTime now
      enqueuedAt := cfg.formatTime now } : Job) = j
    have hid : j.id = i := by rw [← hj]
    have hstores : W.Stores j := by
      refine G.stores w j h (by rw [hid]; exact hn) (by rw [← hj]) ?_
      rw [← hj]
      exact he job List.mem_cons_self
    -- only the record of the new identifier is written
    let others := fun w' : World => ∀ k, k ≠ i → w'.store.jobs.lookup k = w.store.jobs.lookup k
    have hkeep : ∀ {β : Type} {p : M β}, p.Only (fun c => W.allows cfg c ∧
        (c.writesJob = none ∨ c.writesJob = some i)) → ρ.env.Keeps (fun w' => I w' ∧ others w') p := by
      intro β p hp w' h'
      refine hp.keeps _ (fun c w₁ a w₂ hc hw he => ⟨G.keeps c w₁ a w₂ hc.1 hw.1 he, fun k hk => ?_⟩) h'
      refine (Rules.env_job (fun hck => ?_) he).trans (hw.2 k hk)
      rcases hc.2 with hc | hc
      · rw [hc] at hck
        cases hck
      · rw [hc] at hck
        exact hk (Option.some.inj hck).symm
    have hput : W.create (jobToRecord j) := by
      rw [← hj]
      exact (hj ▸ hstores).create .available (cfg.formatTime now) (.inl rfl)
    rw [wp_bind]
    refine wp_mono (Env.every_mono _) _ (hkeep (only_request (c := .putJobItem _) ⟨hput, .inr ?_⟩) w
      ⟨h, fun _ _ => rfl⟩) fun a w₁ h₁ => ?_
    · exact congrArg some hid
    · cases a with
      | error e => exact ⟨h₁.1, fun _ hl => by cases hl⟩
      | ok _ =>
        simp only
        rw [wp_bind]
        refine wp_mono (Env.every_mono _) _ (hkeep (only_registerQueue ⟨trivial, .inl rfl⟩) w₁ h₁)
          fun a w₂ h₂ => ?_
        cases a with
        | error e => exact ⟨h₂.1, fun _ hl => by cases hl⟩
        | ok _ =>
          refine ih _ (hrest.tail hi hne h₂.2) (fun k hk => he k (List.mem_cons_of_mem _ hk))
            (fun k hk => ?_) h₂.1
          rcases List.mem_append.mp hk with hk | hk
          · exact hdone k hk
          · rw [List.mem_singleton.mp hk]
            exact hstores.send j.state j.enqueuedAt

theorem pushBatch {jobs : List Job} (hs : Storable ρ w jobs)
    (he : ∀ job ∈ jobs, job.errors = [] ∨ W.carry job.errors) (h : I w) :
    wp ρ.env.every (OjsSqs.pushBatch cfg jobs) (fun _ => I) w := by
  rw [OjsSqs.pushBatch, wp_ite]
  split
  · exact h
  · cases validateBatch cfg jobs with
    | some e => exact h
    | none =>
      simp only
      rw [wp_bind]
      refine wp_timeNow fun t ht => ?_
      rw [wp_bind]
      refine wp_mono (Env.every_mono _) _ (G.storeBatch (w := w.setClock t) []
        ⟨hs.nodup, hs.fresh, hs.reserved⟩ he (fun _ hj => absurd hj List.not_mem_nil)
        (G.setClock h ht)) fun a w₁ h₁ => ?_
      cases a with
      | error e => exact h₁.1
      | ok l =>
        have hsend : Within cfg W (sendBatchToSQS cfg l) :=
          Prog.only_bind (Prog.only_perform ⟨trivial, rfl⟩) fun order =>
            (apart_sendGroups (h₁.2 l rfl) order).within
        exact keeps_bind (G.within hsend) (fun a => by cases a <;> exact keeps_pure _) w₁ h₁.1

/-! ## Workflows -/

theorem flows : FlowKeeps cfg ρ I where
  calls c w a w' hc h he := by
    refine G.keeps c w a w' ?_ h he
    cases c with
    | dynamo d => cases d <;> trivial
    | sqs c => cases hc
    | proc c => trivial
  push job hid hu he := G.pushPlain hid hu he

/-! ## Ack and Nack -/

theorem ack {id : String} {result : Option String} (h : ∀ now, W.rewrite id (.complete now result)) :
    ρ.env.Keeps I (OjsSqs.ack cfg id result) := by
  refine keeps_bind (G.within (apart_getJob id).within) fun a => ?_
  split
  · exact keeps_pure _
  · split
    · exact keeps_pure _
    · refine keeps_bind (G.within apart_nowFormatted.within) fun now => ?_
      refine keeps_bind (G.within (apart_dropMessage _).within) fun _ => ?_
      refine keeps_bind (G.within (apart_updateJobState (.complete now result) (h now)).within) fun a => ?_
      split
      · exact keeps_pure _
      · refine keeps_bind (G.within (within_request (c := .addCompleted _) trivial rfl)) fun _ => ?_
        refine keeps_bind (G.flows.advanceWorkflowOf id _ _) fun _ => ?_
        exact keeps_bind (G.within (apart_info id).within) fun _ => keeps_pure _

theorem nackDiscard {id : String} {now : Time} {r : JobRecord} {e : Option JobError}
    (h : ∀ t, W.rewrite id (.discard t r e)) (hb : W.bury id) :
    ρ.env.Keeps I (OjsSqs.nackDiscard cfg now r id e) := by
  refine keeps_bind (G.within (apart_deleteMessageOf r _ _).within) fun a => ?_
  split
  · exact keeps_pure _
  · refine keeps_bind (G.within (apart_updateJobState (.discard _ r e) (h _)).within) fun a => ?_
    split
    · exact keeps_pure _
    · refine keeps_bind (G.within (apart_markDeadLetter _ hb).within) fun a => ?_
      split
      · exact keeps_pure _
      · refine keeps_bind (G.flows.advanceWorkflowOf id _ _) fun _ => ?_
        refine keeps_bind (G.within (apart_info id).within) fun a => ?_
        split <;> exact keeps_pure _

theorem nack {id : String} {e : Option JobError} {requeue : Bool} (h : W.Nacks id e requeue) :
    ρ.env.Keeps I (OjsSqs.nack cfg id e requeue) := by
  refine keeps_bind (G.within (apart_getJob id).within) fun a => ?_
  split
  · exact keeps_pure _
  · split
    · exact keeps_pure _
    · refine keeps_bind (G.within apart_timeNow.within) fun now => ?_
      split
      · rename_i hq
        exact G.within (apart_nackRequeue (h.requeue hq)).within
      · rename_i hq
        have hq := Bool.eq_false_iff.mpr hq
        split
        · exact G.nackDiscard (fun t => h.discard hq t _) h.bury
        · exact G.within (apart_nackRetry (fun ms => h.retry hq ms _) h.mark).within

/-! ## The promoters and the dead letter set -/

variable (hρ : ρ.faults = false)
include hρ

theorem promoteOne {i : DueIndex} {id : String} (hr : ∀ t, W.rewrite id (.promote t))
    (hs : ∀ job, job.id = id → W.send job) : ρ.env.Keeps I (OjsSqs.promoteOne cfg i id) := by
  intro w h
  rw [OjsSqs.promoteOne, wp_bind]
  cases hl : w.store.jobs.lookup id with
  | none =>
    rw [wp_getJob_none hρ hl]
    exact h
  | some r =>
    have hid := G.named w h id r hl
    rw [wp_getJob_some hρ hl]
    refine keeps_bind (G.within (within_request (c := .deleteDueItem i id) trivial rfl)) (fun a => ?_) w h
    split
    · exact keeps_pure _
    · refine keeps_bind (G.within apart_timeNow.within) fun now => ?_
      refine keeps_bind (G.within (apart_updateJobState (.promote now) (hr now)).within) fun a => ?_
      split
      · exact keeps_pure _
      · refine keeps_bind (G.within (apart_sendToSQS (hs (promotedJob cfg now r) hid)).within) fun a => ?_
        split <;> exact keeps_pure _

/-- The loop over a page, when the jobs of the page may be made available. -/
theorem promoteAll {i : DueIndex} {ids : List String} (hr : ∀ id ∈ ids, ∀ t, W.rewrite id (.promote t))
    (hs : ∀ job : Job, job.id ∈ ids → W.send job) (first : Option Error) :
    ρ.env.Keeps I (OjsSqs.promoteAll cfg i ids first) := by
  induction ids generalizing first with
  | nil => exact keeps_pure _
  | cons id ids ih =>
    refine keeps_bind (G.promoteOne hρ (hr id List.mem_cons_self) fun job hj => ?_) fun a => ?_
    · exact hs job (hj ▸ List.mem_cons_self)
    · exact ih (fun id hid => hr id (List.mem_cons_of_mem _ hid))
        (fun job hj => hs job (List.mem_cons_of_mem _ hj)) _

theorem retryDeadLetter {id : String} (hr : ∀ t, W.rewrite id (.revive t))
    (hs : ∀ job, job.id = id → W.send job) :
    ρ.env.Keeps I (OjsSqs.retryDeadLetter cfg id) := by
  refine keeps_bind (G.within (within_request (c := .getDeadLetterItem id) trivial rfl)) fun a => ?_
  split
  · refine keeps_bind (G.within apart_timeNow.within) fun now w h => ?_
    rw [wp_bind]
    cases hl : w.store.jobs.lookup id with
    | none =>
      rw [wp_getJob_none hρ hl]
      exact h
    | some r =>
      have hid := G.named w h id r hl
      rw [wp_getJob_some hρ hl]
      refine keeps_bind (G.within (within_request (c := .deleteDeadLetterItem id) trivial rfl))
        (fun _ => ?_) w h
      refine keeps_bind (G.within (apart_updateJobState (.revive now) (hr now)).within) fun _ => ?_
      refine keeps_bind (G.within (apart_sendToSQS (hs (deadLetterJob cfg now r) hid)).within) fun _ => ?_
      exact G.within (apart_info id).within
  · exact keeps_pure _

end Guards
end OjsSqs
