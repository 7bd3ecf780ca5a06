import OjsSqs.Atomic.Steps
import OjsSqs.Lifecycle.Invariant

/-! # The lifecycle of a job

`Edge` is the lifecycle as it is documented: which operation may take which
job from which state to which. `Follows` says that a step moves no stored job
but along an edge, and `Moves` that it leaves every job's places in agreement
as well. Every operation is proved to be one that `Moves`. -/
namespace OjsSqs
open Calls

/-- The edges of the lifecycle of the job `id` with the record `r`: the state
an operation may take it to. `w` is the state of the system before the
operation and `now` the instant it ends. -/
inductive Edge (cfg : Config) (w : World) (now : Time) (id : String) (r : JobRecord) :
    Op → JobState → Prop
  | due : r.state = .scheduled → Edge cfg w now id r .promoteScheduled .available
  | retry : r.state = .retryable → Edge cfg w now id r .promoteRetries .available
  | fetch {fuel : Nat} {queues : List String} {count vis : Int} {worker : String} :
      r.state = .available ∨ r.state = .active →
      Edge cfg w now id r (.fetch fuel queues count worker vis) .active
  | expire {fuel : Nat} {queues : List String} {count vis : Int} {worker : String} :
      r.state = .available ∨ r.state = .active → expired cfg now (recordToJob r) = true →
      Edge cfg w now id r (.fetch fuel queues count worker vis) .discarded
  | complete {result : Option String} :
      r.state = .active → Edge cfg w now id r (.ack id result) .completed
  | fail {e : Option JobError} :
      r.state = .active → Edge cfg w now id r (.nack id e false) .retryable
  | discard {e : Option JobError} :
      r.state = .active → Edge cfg w now id r (.nack id e false) .discarded
  | requeue {e : Option JobError} :
      r.state = .active → Edge cfg w now id r (.nack id e true) .available
  | cancel : isTerminalState r.state = false → Edge cfg w now id r (.cancel id) .cancelled
  | replace {job : Job} :
      isTerminalState r.state = false → Edge cfg w now id r (.push job) .cancelled
  | revive : r.state = .discarded → w.dead id = true →
      Edge cfg w now id r (.retryDeadLetter id) .available

variable {cfg : Config} {κ : Regime} {w w' w'' : World} {now : Time} {o : Op} {id : String}
  {r r' : JobRecord} {s s' : JobState}

/-- No edge leaves the states completed and cancelled. -/
theorem Edge.not_final (h : Edge cfg w now id r o s) :
    r.state ≠ .completed ∧ r.state ≠ .cancelled := by
  cases h <;> constructor <;> intro hs <;> simp_all [isTerminalState]

theorem expired_congr {now : Time} {job job' : Job} (h : job'.expiresAt = job.expiresAt) :
    expired cfg now job' = expired cfg now job := by
  rw [expired, expired, h]

/-- An edge only looks at the state and the expiry of the record. -/
theorem Edge.congr (h : Edge cfg w now id r' o s) (hs : r'.state = r.state)
    (hx : r'.expiresAt = r.expiresAt) : Edge cfg w now id r o s := by
  have hex : expired cfg now (recordToJob r') = expired cfg now (recordToJob r) :=
    expired_congr hx
  cases h with
  | expire h he => exact .expire (hs ▸ h) (hex ▸ he)
  | due h => exact .due (hs ▸ h)
  | retry h => exact .retry (hs ▸ h)
  | fetch h => exact .fetch (hs ▸ h)
  | complete h => exact .complete (hs ▸ h)
  | fail h => exact .fail (hs ▸ h)
  | discard h => exact .discard (hs ▸ h)
  | requeue h => exact .requeue (hs ▸ h)
  | cancel h => exact .cancel (hs ▸ h)
  | replace h => exact .replace (hs ▸ h)
  | revive h hd => exact .revive (hs ▸ h) hd

/-- Two edges of one operation, one after the other, are one edge. -/
theorem Edge.trans (h : Edge cfg w now id r o s) (hs : r'.state = s)
    (he : r'.expiresAt = r.expiresAt) (h' : Edge cfg w now id r' o s') :
    Edge cfg w now id r o s' := by
  cases h with
  | fetch hr =>
    cases h' with
    | fetch _ => exact .fetch hr
    | expire _ hx =>
      refine .expire hr ?_
      rw [← hx]
      exact expired_congr he.symm
  | _ => cases h' <;> simp_all [isTerminalState]

/-- Every stored job is still stored, with the expiry it had, and is in the
state it was in or has taken an edge of the operation. -/
def Follows (cfg : Config) (w₀ : World) (now : Time) (o : Op) (w w' : World) : Prop :=
  ∀ id r, w.store.jobs.lookup id = some r → ∃ r', w'.store.jobs.lookup id = some r' ∧
    r'.expiresAt = r.expiresAt ∧ (r'.state = r.state ∨ Edge cfg w₀ now id r o r'.state)

/-- The edge the lifecycle does not have: a Fetch finds the message of a job that
was cancelled. -/
def Revives (κ : Regime) (r : JobRecord) (o : Op) : Prop :=
  κ.leftover = true ∧ r.state = .cancelled ∧
    ∃ fuel queues count worker vis, o = .fetch fuel queues count worker vis

/-- As `Follows`, but for the cancelled jobs a Fetch may revive. -/
def Roams (cfg : Config) (κ : Regime) (w₀ : World) (now : Time) (o : Op) (w w' : World) : Prop :=
  ∀ id r, w.store.jobs.lookup id = some r → ∃ r', w'.store.jobs.lookup id = some r' ∧
    r'.expiresAt = r.expiresAt ∧
    (r'.state = r.state ∨ Edge cfg w₀ now id r o r'.state ∨ Revives κ r o)

theorem Roams.follows {w₀ : World} (h : Roams cfg κ w₀ now o w w') (hκ : κ.leftover = false) :
    Follows cfg w₀ now o w w' := by
  intro id r hr
  obtain ⟨r', hr', hx, hs⟩ := h id r hr
  refine ⟨r', hr', hx, hs.imp_right fun hs => hs.resolve_right fun hrev => ?_⟩
  exact absurd hrev.1 (by rw [hκ]; decide)

/-- A Fetch leaves no job cancelled. -/
theorem Edge.not_revives (h : Edge cfg w now id r o s) (hs : r'.state = s) :
    ¬ Revives κ r' o := by
  rintro ⟨-, hc, fuel, queues, count, worker, vis, rfl⟩
  cases h <;> (rw [hs] at hc; cases hc)

theorem Roams.trans {w₀ : World} (h : Roams cfg κ w₀ now o w w')
    (h' : Roams cfg κ w₀ now o w' w'') : Roams cfg κ w₀ now o w w'' := by
  intro id r hr
  obtain ⟨r₁, hr₁, hx₁, hs₁⟩ := h id r hr
  obtain ⟨r₂, hr₂, hx₂, hs₂⟩ := h' id r₁ hr₁
  refine ⟨r₂, hr₂, hx₂.trans hx₁, ?_⟩
  rcases hs₁ with hs₁ | hs₁ | hs₁
  · rcases hs₂ with hs₂ | hs₂ | ⟨hκ, hc, ho⟩
    · exact .inl (hs₂.trans hs₁)
    · exact .inr (.inl (hs₂.congr hs₁ hx₁))
    · exact .inr (.inr ⟨hκ, hs₁ ▸ hc, ho⟩)
  · rcases hs₂ with hs₂ | hs₂ | hs₂
    · exact .inr (.inl (hs₂ ▸ hs₁))
    · exact .inr (.inl (hs₁.trans rfl hx₁ hs₂))
    · exact absurd hs₂ (hs₁.not_revives rfl)
  · exact .inr (.inr hs₁)

/-- The move of one job. -/
theorem Frame.roams {w₀ : World} (hfr : Frame id w w') (hr : w.store.jobs.lookup id = some r)
    (hr' : w'.store.jobs.lookup id = some r') (hx : r'.expiresAt = r.expiresAt)
    (he : r'.state = r.state ∨ Edge cfg w₀ now id r o r'.state ∨ Revives κ r o) :
    Roams cfg κ w₀ now o w w' := by
  intro i rᵢ hi
  by_cases hid : i = id
  · subst hid
    rw [hr] at hi
    cases hi
    exact ⟨r', hr', hx, he⟩
  · exact ⟨rᵢ, (hfr.others i hid).job.trans hi, rfl, .inl rfl⟩

theorem roams_untouched {w₀ : World} (h : ∀ i, Untouched i w w') :
    Roams cfg κ w₀ now o w w' :=
  fun i rᵢ hi => ⟨rᵢ, (h i).job.trans hi, rfl, .inl rfl⟩

theorem Roams.refl (w₀ : World) (w : World) : Roams cfg κ w₀ now o w w :=
  fun _ r h => ⟨r, h, rfl, .inl rfl⟩

/-- What every operation is proved to do: the jobs' places agree afterwards,
and the jobs that were stored have moved along its edges. -/
structure Moves (cfg : Config) (κ : Regime) (w₀ : World) (o : Op) (w w' : World) : Prop where
  good : Good cfg κ [] w'
  roams : Roams cfg κ w₀ w'.clock o w w'

theorem Moves.none {w₀ : World} (hg : Good cfg κ [] w) : Moves cfg κ w₀ o w w :=
  ⟨hg, .refl w₀ w⟩

/-- The edges of every operation but Fetch hold at any instant. -/
theorem Edge.timeless {now' : Time} (h : Edge cfg w now id r o s)
    (ho : ∀ fuel queues count worker vis, o ≠ .fetch fuel queues count worker vis) :
    Edge cfg w now' id r o s := by
  cases h with
  | due h => exact .due h
  | retry h => exact .retry h
  | fetch => exact absurd rfl (ho _ _ _ _ _)
  | expire => exact absurd rfl (ho _ _ _ _ _)
  | complete h => exact .complete h
  | fail h => exact .fail h
  | discard h => exact .discard h
  | requeue h => exact .requeue h
  | cancel h => exact .cancel h
  | replace h => exact .replace h
  | revive h hd => exact .revive h hd

theorem Moves.trans {w₀ : World}
    (ho : ∀ fuel queues count worker vis, o ≠ .fetch fuel queues count worker vis)
    (h : Moves cfg κ w₀ o w w') (h' : Moves cfg κ w₀ o w' w'') : Moves cfg κ w₀ o w w'' := by
  refine ⟨h'.good, Roams.trans (fun id r hr => ?_) h'.roams⟩
  obtain ⟨r', hr', hx, he⟩ := h.roams id r hr
  exact ⟨r', hr', hx, he.imp_right (Or.imp_left fun he => he.timeless ho)⟩

/-- Time has passed and a table that is no job's place has been written. -/
theorem Good.aside {w₀ : World} (hg : Good cfg κ [] w) (t : Time) {s : Store}
    (hj : s.jobs = w.store.jobs) (hd : s.due = w.store.due)
    (hl : s.deadLetters = w.store.deadLetters) (hw : s.workflows = w.store.workflows) :
    Moves cfg κ w₀ o w ((w.setClock t).setStore s) := by
  have hu : ∀ i, Untouched i w ((w.setClock t).setStore s) := fun i =>
    ⟨by rw [World.setStore, hj], fun x => by rw [World.marked, World.setStore, hd]; rfl,
      by rw [World.dead, World.setStore, hl]; rfl, rfl⟩
  refine ⟨hg.untouched ⟨hg.sound.sqs, hg.sound.urls, ?_⟩ hu (.refl _), roams_untouched hu⟩
  rw [World.setStore, hw]
  exact hg.sound.workflows

theorem Good.moves {w₀ : World} (hg : Good cfg κ [] w) (ht : Touch cfg id w w')
    (hr : w.store.jobs.lookup id = some r) (hr' : w'.store.jobs.lookup id = some r')
    (hf : Fits cfg κ [] w' id r') (hx : r'.expiresAt = r.expiresAt)
    (he : r'.state = r.state ∨ Edge cfg w₀ w'.clock id r o r'.state) : Moves cfg κ w₀ o w w' :=
  ⟨hg.touch ht.frame ht.sound hr' hf, ht.frame.roams hr hr' hx (he.imp_right .inl)⟩

end OjsSqs
