import OjsSqs.Atomic.Steps
import OjsSqs.Calls.Path
import OjsSqs.Sqs.Crons
import OjsSqs.Sqs.QueueOps

/-! # The steps of the whole backend

To the operations on jobs come those on queues, workflows and crons, and the
heartbeat. Each runs alone, as in `Step`, and so does the environment. The
identifiers of workflows are not handed out again either. -/
namespace OjsSqs
open Calls

inductive SystemOp where
  | job (o : Op)
  | pauseQueue (name : String)
  | resumeQueue (name : String)
  | heartbeat (activeJobs : List String) (visibilityTimeoutMs : Int)
  | createWorkflow (req : WorkflowRequest)
  | cancelWorkflow (id : String)
  | registerCron (zone : String) (cronJob : CronJob)
  | deleteCron (name : String)
  | fireCronJobs (zone : String)

namespace SystemOp

abbrev Result : SystemOp → Type
  | .job o => o.Result
  | .pauseQueue _ | .resumeQueue _ => Except Error Unit
  | .heartbeat _ _ => List String
  | .createWorkflow _ | .cancelWorkflow _ => Except Error Workflow
  | .registerCron _ _ | .deleteCron _ => Except Error CronJob
  | .fireCronJobs _ => Option Error

def prog (cfg : Config) (lib : CronLib) : (o : SystemOp) → M o.Result
  | .job o => o.prog cfg
  | .pauseQueue name => OjsSqs.pauseQueue name
  | .resumeQueue name => OjsSqs.resumeQueue name
  | .heartbeat activeJobs vis => heartbeatJobs cfg activeJobs vis
  | .createWorkflow req => OjsSqs.createWorkflow cfg req
  | .cancelWorkflow id => OjsSqs.cancelWorkflow cfg id
  | .registerCron zone cronJob => OjsSqs.registerCron cfg lib zone cronJob
  | .deleteCron name => OjsSqs.deleteCron name
  | .fireCronJobs zone => OjsSqs.fireCronJobs cfg lib zone

def done : (o : SystemOp) → o.Result → Bool
  | .job o, a => o.done a
  | _, _ => true

/-- The jobs clients bring in. -/
def newJobs : SystemOp → List Job
  | .job o => o.newJobs
  | _ => []

def Fresh : SystemOp → World → Prop
  | .job o, w => o.Fresh w
  | _, _ => True

instance (o : SystemOp) (w : World) : Decidable (o.Fresh w) := by
  cases o with
  | job o => exact inferInstanceAs (Decidable (o.Fresh w))
  | _ => exact inferInstanceAs (Decidable True)

/-- The identifiers that are in use, besides those of the stored jobs. -/
def inUse (o : SystemOp) (w : World) : List String :=
  (match o with | .job o => o.newIDs | _ => []) ++ w.store.workflows.keys

end SystemOp

inductive SystemLabel where
  | op (o : SystemOp) (a : o.Result)
  | env (l : Label)

inductive SystemStep (cfg : Config) (lib : CronLib) (ρ : Rules) :
    World → SystemLabel → World → Prop
  | op {w w' : World} (o : SystemOp) (a : o.Result) : o.Fresh w → o.done a = true →
      Runs (ρ.reserving (o.inUse w)).env (o.prog cfg lib) w a w' →
      SystemStep cfg lib ρ w (.op o a) w'
  | env {w w' : World} (l : Label) : l.isOp = false → Step cfg ρ w l w' →
      SystemStep cfg lib ρ w (.env l) w'

/-- A run of the system from the beginning. -/
abbrev SystemRun (cfg : Config) (lib : CronLib) (ρ : Rules) (t : Time) :
    List SystemLabel → World → Prop := Path (SystemStep cfg lib ρ) (.start t)

section
variable {ρ : Rules} {w w' : World} {α : Type} {p : M α} {a : α}

/-- The more identifiers are reserved, the less may happen. -/
theorem Rules.reserving_env {ids ids' : List String} (hsub : ids ⊆ ids') {c : Call} {r : Answer c}
    (h : (ρ.reserving ids').env c w r w') : (ρ.reserving ids).env c w r w' := by
  obtain ⟨ch, he⟩ := h
  obtain ⟨ha, he⟩ := Option.ite_none_right_eq_some.mp he
  refine ⟨ch, Option.ite_none_right_eq_some.mpr ⟨?_, he⟩⟩
  cases ch with
  | uuid id =>
    have hid : id ∉ ids' := of_decide_eq_true ha
    exact decide_eq_true fun hmem => hid (hsub hmem)
  | _ => exact ha

theorem runs_reserving {ids ids' : List String} (hsub : ids ⊆ ids')
    (h : Runs (ρ.reserving ids').env p w a w') : Runs (ρ.reserving ids).env p w a w' :=
  h.mono fun _ _ _ _ => Rules.reserving_env hsub

end

/-! ## Scripts -/

/-- A step with the choices the environment makes in it. -/
inductive SystemAct where
  | op (o : SystemOp) (choices : List Choice)
  | env (x : Act)

namespace SystemAct

def run (cfg : Config) (lib : CronLib) (ρ : Rules) : SystemAct → World → Option (SystemLabel × World)
  | .op o choices, w =>
    if o.Fresh w then
      match script (ρ.reserving (o.inUse w)).act choices (o.prog cfg lib) w with
      | some (a, w') => if o.done a then some (.op o a, w') else none
      | none => none
    else none
  | .env x, w => match x.run cfg ρ w with
    | some (l, w') => if l.isOp = false then some (.env l, w') else none
    | none => none

variable {cfg : Config} {lib : CronLib} {ρ : Rules} {w w' : World}

theorem run_step {x : SystemAct} {l : SystemLabel} (h : x.run cfg lib ρ w = some (l, w')) :
    SystemStep cfg lib ρ w l w' := by
  cases x with
  | op o choices =>
    simp only [run] at h
    split at h
    · rename_i hf
      split at h
      · rename_i a w₁ hs
        obtain ⟨hd, h⟩ := Option.ite_none_right_eq_some.mp h
        cases h
        exact .op o a hf hd (script_runs choices hs)
      · cases h
    · cases h
  | env x =>
    simp only [run] at h
    split at h
    · rename_i l₁ w₁ hr
      obtain ⟨hl, h⟩ := Option.ite_none_right_eq_some.mp h
      cases h
      exact .env l₁ hl (Act.run_step hr)
    · cases h

/-- The labels of a list of steps, and the state after them. -/
def play (cfg : Config) (lib : CronLib) (ρ : Rules) :
    List SystemAct → World → Option (List SystemLabel × World)
  | [], w => some ([], w)
  | x :: xs, w => match x.run cfg lib ρ w with
    | some (l, w') => (play cfg lib ρ xs w').map fun (ls, w'') => (l :: ls, w'')
    | none => none

theorem play_path {ok : World → SystemLabel → Prop} {xs : List SystemAct} {ls : List SystemLabel}
    (h : play cfg lib ρ xs w = some (ls, w'))
    (hok : ∀ x ∈ xs, ∀ w l w', x.run cfg lib ρ w = some (l, w') → ok w l) :
    Path (Meeting ok (SystemStep cfg lib ρ)) w ls w' := by
  induction xs generalizing w ls with
  | nil =>
    cases h
    exact .nil
  | cons x xs ih =>
    simp only [play] at h
    split at h
    · rename_i l w₁ hr
      obtain ⟨⟨ls₁, w₂⟩, hp, h⟩ := Option.map_eq_some_iff.mp h
      cases h
      have hfirst : Path (Meeting ok (SystemStep cfg lib ρ)) w [l] w₁ :=
        .single ⟨hok x List.mem_cons_self w l w₁ hr, run_step hr⟩
      exact hfirst.append (ih hp fun y hy => hok y (List.mem_cons_of_mem _ hy))
    · cases h

/-- The label of an operation's step is the operation, with its result. -/
theorem run_op {o : SystemOp} {choices : List Choice} {l : SystemLabel}
    (h : (SystemAct.op o choices).run cfg lib ρ w = some (l, w')) :
    ∃ a, l = .op o a ∧
      script (ρ.reserving (o.inUse w)).act choices (o.prog cfg lib) w = some (a, w') := by
  simp only [run] at h
  split at h
  · split at h
    · rename_i a w₁ hs
      obtain ⟨_, h⟩ := Option.ite_none_right_eq_some.mp h
      cases h
      exact ⟨a, rfl, hs⟩
    · cases h
  · cases h

end SystemAct
end OjsSqs
