import OjsSqs.Atomic.Steps
import OjsSqs.Lifecycle.Runs

/-! # The laws of the lifecycle

What a system without failing calls keeps in every run, in any order of its
operations: the edges of the lifecycle, one ticket for each job, and no job
lost. The first and the last have a condition on the steps, and a run in which
it is not met shows what happens then. -/
namespace OjsSqs
open Calls

variable {cfg : Config} {ρ : Rules} {w w' : World} {l : Label}

/-! ## The edges -/

/-- A step moves the stored jobs along the edges of the lifecycle, and no job
out of the states completed and cancelled. -/
structure KeepsLifecycle (cfg : Config) (w : World) (l : Label) (w' : World) : Prop where
  lawful : Lawful cfg w l w'
  final : ∀ id r, w.store.jobs.lookup id = some r →
    r.state = .completed ∨ r.state = .cancelled →
    ∃ r', w'.store.jobs.lookup id = some r' ∧ r'.state = r.state

theorem Lawful.keeps (h : Lawful cfg w l w') : KeepsLifecycle cfg w l w' := by
  refine ⟨h, fun id r hr hs => ?_⟩
  cases l with
  | op o a =>
    obtain ⟨r', hr', _, hsame | hedge⟩ := h id r hr
    · exact ⟨r', hr', hsame⟩
    · obtain ⟨hc, hx⟩ := hedge.not_final
      exact absurd hs (not_or.mpr ⟨hc, hx⟩)
  | _ => exact ⟨r, by rw [h]; exact hr, rfl⟩

/-- **The lifecycle.** In every run whose cancels reach the messages of the
jobs they cancel, every step keeps the lifecycle. -/
theorem run_keeps_lifecycle (hρ : ρ.faults = false)
    (h : Reachable cfg ρ (CancelsReach cfg) w) (hok : CancelsReach cfg w l)
    (hs : Step cfg ρ w l w') : KeepsLifecycle cfg w l w' := by
  have hallow : ∀ w l, CancelsReach cfg w l → Allows cfg ρ ⟨false, false⟩ w l :=
    fun _ _ h => ⟨.inr h, fun h => by cases h⟩
  have hg := reachable_good hρ (fun h => by cases h) hallow h
  exact ((step_good hρ (fun h => by cases h) hg (hallow w l hok) hs).2 rfl).keeps

/-- The pushed job of the demo run is fetched. -/
theorem run_keeps_lifecycle_fetch : ∃ w l w', demoState w = some .available ∧
    demoState w' = some .active ∧ KeepsLifecycle demo w l w' := by
  have hrun : ((Act.play demo {} [pushDemo] (.start 0)).bind fun w =>
      (fetchDemo.run demo {} w).map fun (_, w') => (demoState w, demoState w')) =
      some (some .available, some .active) := rfl
  obtain ⟨w, hw, hrun⟩ := Option.bind_eq_some_iff.mp hrun
  obtain ⟨⟨l, w'⟩, hstep, hrun⟩ := Option.map_eq_some_iff.mp hrun
  obtain ⟨h, h'⟩ := Prod.mk.inj hrun
  have hreach : Reachable demo {} (CancelsReach demo) w := by
    refine Act.play_reachable (.start 0) hw fun x hx w l w' hr => ?_
    rw [List.mem_singleton.mp hx] at hr
    obtain ⟨a, rfl, -⟩ := Act.run_op hr
    rintro id ⟨_, _, _, hu, _⟩
    cases hu
  obtain ⟨a, rfl, -⟩ := Act.run_op hstep
  have hok : CancelsReach demo w (.op _ a) := fun _ hc => False.elim hc
  exact ⟨w, _, w', h, h', run_keeps_lifecycle rfl hreach hok (Act.run_step hstep)⟩

/-- A job that was cancelled before it was fetched still has its message, and
the next fetch makes it active. -/
theorem fetch_revives_cancelled : ¬ ∀ (cfg : Config) (ρ : Rules) (w w' : World) (l : Label),
    ρ.faults = false → Reachable cfg ρ anyLabel w → Step cfg ρ w l w' →
    KeepsLifecycle cfg w l w' := by
  intro hall
  have hrun : ((Act.play demo {} [pushDemo, cancelDemo] (.start 0)).bind fun w =>
      (fetchDemo.run demo {} w).map fun (_, w') => (demoState w, demoState w')) =
      some (some .cancelled, some .active) := rfl
  obtain ⟨w, hw, hrun⟩ := Option.bind_eq_some_iff.mp hrun
  obtain ⟨⟨l, w'⟩, hstep, hrun⟩ := Option.map_eq_some_iff.mp hrun
  obtain ⟨h, h'⟩ := Prod.mk.inj hrun
  obtain ⟨r, hr, hs⟩ := Option.map_eq_some_iff.mp h
  have hreach : Reachable demo {} anyLabel w :=
    Act.play_reachable (.start 0) hw fun _ _ _ _ _ _ => trivial
  obtain ⟨r', hr', hs'⟩ :=
    (hall demo {} w w' l rfl hreach (Act.run_step hstep)).final "j1" r hr (.inr hs)
  rw [demoState, hr', Option.map_some, hs', hs] at h'
  cases h'

/-! ## One ticket -/

namespace World

/-- The tickets of a job: its undeleted messages and its due markers. -/
def tickets (id : String) (w : World) : Nat :=
  (w.sqs.messagesOf id).length + (w.marked .scheduled id).toNat + (w.marked .retry id).toNat

end World

/-- The places of a state hold one ticket together. -/
theorem maxTickets_le (κ : Regime) (s : JobState) : maxMessages κ s +
    (decide (s = .scheduled)).toNat + (decide (s = .retryable)).toNat ≤ 1 := by
  have h := maxMessages_le κ s
  cases s <;> first | exact h | exact le_refl 1

theorem Fits.tickets_le {κ : Regime} {id : String} {r : JobRecord} (hf : Fits cfg κ [] w id r) :
    w.tickets id ≤ 1 ∧ (r.state = .discarded → w.tickets id = 0) := by
  have hm := hf.messages
  have hroom := maxTickets_le κ r.state
  rw [World.tickets, hf.scheduled, hf.retry]
  refine ⟨by omega, fun hs => ?_⟩
  rw [hs] at hm ⊢
  exact Nat.le_zero.mp hm

/-- **One ticket.** In every run a job has at most one ticket, and one in the
dead letter set is discarded and has none. -/
theorem one_ticket (hρ : ρ.faults = false) (h : Reachable cfg ρ anyLabel w) (id : String) :
    w.tickets id ≤ 1 ∧ (w.dead id = true → w.tickets id = 0 ∧
      ∃ r, w.store.jobs.lookup id = some r ∧ r.state = .discarded) := by
  have hg : Good cfg ⟨true, false⟩ [] w := 
    reachable_good hρ (fun h => by cases h) (fun _ _ _ => ⟨.inl rfl, fun h => by cases h⟩) h
  cases hr : w.store.jobs.lookup id with
  | none =>
    have hu := hg.unknown id hr
    refine ⟨?_, fun hd => absurd hu.dead (by rw [hd]; decide)⟩
    rw [World.tickets, hu.messages, hu.marked, hu.marked]
    exact Nat.zero_le 1
  | some r =>
    have hf := hg.fits id r hr
    refine ⟨hf.tickets_le.1, fun hd => ?_⟩
    have hs := (hf.dead hd).1
    exact ⟨hf.tickets_le.2 hs, r, rfl, hs⟩

/-- The job of the demo run that was cancelled and fetched again has one. -/
theorem one_ticket_revived : ∃ w, demoState w = some .active ∧ w.tickets "j1" ≤ 1 := by
  have hrun : (Act.play demo {} [pushDemo, cancelDemo, fetchDemo] (.start 0)).map demoState =
      some (some .active) := rfl
  obtain ⟨w, hw, hs⟩ := Option.map_eq_some_iff.mp hrun
  have hreach : Reachable demo {} anyLabel w :=
    Act.play_reachable (.start 0) hw fun _ _ _ _ _ _ => trivial
  exact ⟨w, hs, (one_ticket rfl hreach "j1").1⟩

/-! ## No job is lost -/

/-- Every stored job that is not done can be found again: an available or
active job has a message in its queue, a waiting one its marker. -/
def NothingLost (cfg : Config) (w : World) : Prop :=
  ∀ id r, w.store.jobs.lookup id = some r →
    (r.state = .available ∨ r.state = .active →
      ∃ m ∈ w.sqs.messages, m.jobID = some id ∧ m.queueURL = sqsQueueName cfg r.queue) ∧
    (r.state = .scheduled → w.marked .scheduled id = true) ∧
    (r.state = .retryable → w.marked .retry id = true)

/-- The steps under consideration: every Push has returned a job, and there is
no batch. -/
def PushesSucceed (_ : World) : Label → Prop
  | .op (.push _) a => ∃ j, a = Except.ok j
  | .op (.pushBatch _) _ => False
  | _ => True

theorem Good.nothingLost {κ : Regime} (hκ : κ.lossless = true) (hg : Good cfg κ [] w) :
    NothingLost cfg w := by
  intro id r hr
  have hf := hg.fits id r hr
  refine ⟨fun hs => ?_, fun hs => ?_, fun hs => ?_⟩
  · obtain ⟨m, hm⟩ := List.exists_mem_of_ne_nil _ (hf.present hκ hs)
    obtain ⟨hmem, hjob⟩ := SqsState.mem_messagesOf.mp hm
    exact ⟨m, hmem, hjob, (hf.about m hm).queueURL⟩
  · rw [hf.scheduled, hs]
    rfl
  · rw [hf.retry, hs]
    rfl

/-- The rules under which no message uses up its deliveries. -/
def noRedrive : Rules := { redrive := false }

/-- The push of the demo run returns a job, under any rules of redrive. -/
theorem pushDemo_succeeds {w : World} {l : Label} {b : Bool}
    (h : pushDemo.run demo { redrive := b } (.start 0) = some (l, w)) :
    ∃ j, l = .op (.push demoJob) (.ok j) := by
  have hok : ((script (Rules.reserving { redrive := b } (Op.push demoJob).newIDs).act
      [.tick 0, .ok, .ok, .ok, .ok, .ok, .ok, .ok] ((Op.push demoJob).prog demo)
      (.start 0)).map fun (a, _) => a.toOption.isSome) = some true := by cases b <;> rfl
  obtain ⟨a, rfl, hscript⟩ := Act.run_op h
  rw [hscript] at hok
  cases a with
  | error e => cases hok
  | ok j => exact ⟨j, rfl⟩

/-- The steps of a pushed job whose worker dies three times, and of the fetch
after that. -/
def fourFetches : List Act :=
  [.ensureDLQ "default" "ojs-default" [.ok, .ok, .ok], fetchDemo, .expireVisibility 0,
    fetchDemo, .expireVisibility 0, fetchDemo, .expireVisibility 0, fetchNothing]

end OjsSqs
