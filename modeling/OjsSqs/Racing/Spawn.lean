import OjsSqs.Racing.Footprint

/-! # Jobs a workflow pushes

The next step of a chain and the callbacks of a batch are pushed while
`AdvanceWorkflow` runs. Such a job gets a new identifier, and the push writes
the record of that identifier only. -/
namespace OjsSqs
open Calls

/-- The calls of such a push, when `made` is the last new identifier. -/
def Call.spawns (made : Option String) : Call → Prop
  | .dynamo (.putJobItem r) => made = some r.id
  | .dynamo (.putQueueItem _) | .dynamo (.putDueItem _ _ _) | .dynamo (.putWorkflowJobItem _ _)
  | .dynamo (.queryWorkflowResults _) => True
  | .dynamo _ => False
  | _ => True

/-- The last new identifier after a call. -/
def freshAfter (made : Option String) : (c : Call) → Answer c → Option String
  | .proc .newUUIDv7, id => some id
  | _, _ => made

/-- Follows the new identifiers of a program. -/
def spawning (α : Type) : Monitor (Option String) Call Answer α where
  allow made c := c.spawns made
  next made c r := freshAfter made c r
  accept _ _ := True

theorem freshAfter_of_ne {c : Call} (made : Option String) (r : Answer c)
    (h : c ≠ .proc .newUUIDv7) : freshAfter made c r = made := by
  cases c with
  | dynamo d => rfl
  | sqs c => rfl
  | proc c => cases c <;> first | rfl | exact absurd rfl h

section
variable (cfg : Config) {made : Option String} {γ : Type}

/-- A stretch that makes no identifier and writes no record. -/
theorem spawning_only {β : Type} {p : M β} {Q : β → Option String → Prop}
    (hp : p.Only fun c => c.spawns none ∧ c ≠ .proc .newUUIDv7) (hQ : ∀ a, Q a made) :
    wp (spawning γ).effect p Q made := by
  refine Monitor.wp_only hp (fun c hc => ⟨?_, fun r => freshAfter_of_ne made r hc.2⟩) hQ
  obtain ⟨hs, -⟩ := hc
  cases c with
  | dynamo d => cases d <;> trivial
  | sqs c => trivial
  | proc c => trivial

theorem spawning_aside {β : Type} {p : M β} {Q : β → Option String → Prop}
    (hp : p.Only (·.isAside)) (hQ : ∀ a, Q a made) : wp (spawning γ).effect p Q made := by
  refine spawning_only (hp.mono fun c hc => ?_) hQ
  cases c with
  | dynamo d => cases hc
  | sqs c => exact ⟨trivial, nofun⟩
  | proc c => exact ⟨trivial, fun h => by rw [h] at hc; cases hc⟩

/-- The calls that store the job `id` are those of a push of that job. -/
theorem Call.stores.spawns {c : Call} {id : String} (h : c.stores id) :
    c.spawns (some id) ∧ ∀ r, freshAfter (some id) c r = some id := by
  cases c with
  | dynamo d =>
    cases d <;> first
      | exact ⟨congrArg some (show _ from h).symm, fun _ => rfl⟩
      | exact ⟨trivial, fun _ => rfl⟩
      | cases h
  | sqs c => exact ⟨trivial, fun _ => rfl⟩
  | proc c => cases c <;> first | exact ⟨trivial, fun _ => rfl⟩ | cases h

theorem spawning_pushNew {now : Time} {job : Job} {Q : Except Error Job → Option String → Prop}
    (hQ : ∀ a, Q a (some job.id)) :
    wp (spawning γ).effect (pushNew cfg now job) Q (some job.id) := by
  have hstore : wp (storing job.id).effect (pushNew cfg now job) (storing job.id).accept false :=
    storing_pushNew cfg now job
  exact Monitor.wp_embed (m := spawning γ) (fun _ => some job.id)
    (fun _ _ (hc : Call.stores job.id _) => hc.spawns) hstore fun a _ _ => hQ a

/-- A job without an identifier and without a unique policy. -/
theorem spawning_push {job : Job} (hid : job.id = "") (hu : job.unique = none)
    {Q : Except Error Job → Option String → Prop} (hQ : ∀ a o, Q a o) :
    wp (spawning γ).effect (push cfg job) Q made := by
  rw [push, wp_bind]
  refine spawning_aside only_timeNow fun now => ?_
  rw [wp_bind, assignID, if_pos hid]
  refine ⟨trivial, fun id => ?_⟩
  simp only [hu]
  exact spawning_pushNew cfg fun a => hQ a _

theorem spawning_pushWorkflowJob {wf : String} {job : Job} (hid : job.id = "")
    (hu : job.unique = none) {Q : Except Error Unit → Option String → Prop} (hQ : ∀ a o, Q a o) :
    wp (spawning γ).effect (pushWorkflowJob cfg wf job) Q made := by
  rw [pushWorkflowJob, wp_bind]
  refine spawning_push cfg hid hu fun a o => ?_
  split
  · exact hQ _ _
  · rw [wp_bind]
    exact spawning_only (only_request ⟨trivial, nofun⟩) fun a => hQ _ _

theorem spawning_enqueueChainStep {id : String} {wf : WorkflowRecord} {stepIdx : Int}
    {Q : Except Error Unit → Option String → Prop} (hQ : ∀ a o, Q a o) :
    wp (spawning γ).effect (enqueueChainStep cfg id wf stepIdx) Q made := by
  rw [enqueueChainStep]
  split
  · exact hQ _ _
  · split
    · exact hQ _ _
    · rw [wp_bind]
      refine spawning_only (only_request ⟨trivial, nofun⟩) fun a => ?_
      exact spawning_pushWorkflowJob cfg rfl rfl hQ

theorem spawning_fireIfDefined {cb : Option WorkflowCallback} {Q : Unit → Option String → Prop}
    (hQ : ∀ o, Q () o) : wp (spawning γ).effect (fireIfDefined cfg cb) Q made := by
  cases cb with
  | none => exact hQ _
  | some cb =>
    show wp _ (fireCallback cfg cb) Q made
    rw [fireCallback, wp_bind]
    exact spawning_push cfg rfl rfl fun a o => hQ o

theorem spawning_fireBatchCallbacks {wf : WorkflowRecord} {failed : Bool}
    {Q : Unit → Option String → Prop} (hQ : ∀ o, Q () o) :
    wp (spawning γ).effect (fireBatchCallbacks cfg wf failed) Q made := by
  rw [fireBatchCallbacks]
  split
  · exact hQ _
  · rw [wp_bind]
    refine spawning_fireIfDefined cfg fun o => ?_
    split <;> exact spawning_fireIfDefined cfg hQ

end

end OjsSqs
