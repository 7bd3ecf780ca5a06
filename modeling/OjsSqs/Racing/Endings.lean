import OjsSqs.Racing.Spawn
import OjsSqs.Sqs.Jobs

/-! # Calls that end an active job

Ack, Nack and Cancel check the state of the job with a read and write it later
with an update that has no condition. A monitor follows each of them through
the check and the write, and through what comes after the write: the counter
of the queue, the call of `AdvanceWorkflow` and the jobs it pushes. -/
namespace OjsSqs
open Calls

/-- A call that ends the job; the Nack does not ask for a requeue. -/
inductive Ending where
  | ack (result : Option String)
  | nack (jobErr : Option JobError)
  | cancel

namespace Ending

/-- The call, with the response left out. -/
def prog (cfg : Config) (id : String) : Ending → M (Except Error Unit)
  | .ack result => (·.map fun _ => ()) <$> OjsSqs.ack cfg id result
  | .nack jobErr => (·.map fun _ => ()) <$> OjsSqs.nack cfg id jobErr false
  | .cancel => (·.map fun _ => ()) <$> OjsSqs.cancel cfg id

def isCancel : Ending → Bool
  | .cancel => true
  | _ => false

/-- The state check of the call. -/
def accepts : Ending → JobState → Bool
  | .cancel, s => !isTerminalState s
  | _, s => decide (s = .active)

/-- The states the call may write. -/
def writes : Ending → JobState → Bool
  | .ack _, s => decide (s = .completed)
  | .nack _, s => decide (s = .retryable ∨ s = .discarded)
  | .cancel, s => decide (s = .cancelled)

end Ending

/-- After the write: the state written, whether the queue's counter has been
counted up and `AdvanceWorkflow` called, and the last new identifier. -/
structure Written where
  state : JobState
  counted : Bool := false
  advanced : Bool := false
  made : Option String := none

/-- Where a call stands: before its check, between check and write, after the
write, and refused by the check. `gone` is a call whose job has vanished. -/
inductive Closing where
  | start
  | checked
  | wrote (a : Written)
  | refused
  | gone

/-- The calls after the write. -/
def Written.allows (a : Written) : Call → Prop
  | .dynamo (.addCompleted _) => a.state = .completed ∧ a.counted = false
  | .dynamo (.getWorkflowItem _) => a.state ≠ .cancelled ∧ a.advanced = false
  | .dynamo (.putJobItem r) => a.made = some r.id
  | .dynamo (.updateJobItem _ _ _ _ _) => False
  | _ => True

def Written.next (a : Written) : (c : Call) → Answer c → Written
  | .dynamo (.addCompleted _), _ => { a with counted := true }
  | .dynamo (.getWorkflowItem _), _ => { a with advanced := true }
  | c, r => { a with made := freshAfter a.made c r }

/-- The calls between check and write. -/
def Ending.closes (o : Ending) (id : String) (c : Call) : Prop :=
  c.isAside ∨ (∃ x, c = .dynamo (.deleteDueItem x id)) ∨ c = .dynamo (.getJobItem id) ∨
    ∃ s us sk pk, c = .dynamo (.updateJobItem id s us sk pk) ∧ o.writes s = true

/-- Follows one call that ends the job. -/
def closing (id : String) (o : Ending) : Monitor Closing Call Answer (Except Error Unit) where
  allow
    | .start, c => c = .dynamo (.getJobItem id)
    | .checked, c => o.closes id c
    | .wrote a, c => a.allows c
    | .refused, _ => False
    | .gone, _ => True
  next
    | .start, .dynamo (.getJobItem _), .ok (some r) => if o.accepts r.state then .checked else .refused
    | .start, _, _ => .refused
    | .checked, .dynamo (.getJobItem _), .ok (some _) => .checked
    | .checked, .dynamo (.getJobItem _), _ => .gone
    | .checked, .dynamo (.updateJobItem _ s _ _ _), .ok _ => .wrote { state := s }
    | .checked, .dynamo (.updateJobItem _ _ _ _ _), _ => .gone
    | .wrote a, c, r => .wrote (a.next c r)
    | s, _, _ => s
  accept
    | _, .wrote _ | _, .gone => True
    | a, _ => a.isOk = false

/-! ## What follows a finished job -/

/-- The calls of a stretch that neither counts the queue up nor calls
`AdvanceWorkflow`, and writes the records of new jobs only. -/
def Call.trails (made : Option String) : Call → Prop
  | .dynamo (.putJobItem r) => made = some r.id
  | .dynamo (.updateJobItem _ _ _ _ _) | .dynamo (.addCompleted _)
  | .dynamo (.getWorkflowItem _) => False
  | _ => True

/-- Follows the new identifiers of such a stretch. -/
def trailing : Monitor (Option String) Call Answer Unit where
  allow made c := c.trails made
  next made c r := freshAfter made c r
  accept _ _ := True

section
variable (cfg : Config) {made : Option String}

theorem trailing_only {β : Type} {p : M β} {Q : β → Option String → Prop}
    (hp : p.Only fun c => c.trails none ∧ c ≠ .proc .newUUIDv7) (hQ : ∀ a, Q a made) :
    wp trailing.effect p Q made := by
  refine Monitor.wp_only hp (fun c hc => ⟨?_, fun r => freshAfter_of_ne made r hc.2⟩) hQ
  obtain ⟨hs, -⟩ := hc
  cases c with
  | dynamo d => cases d <;> trivial
  | sqs c => trivial
  | proc c => trivial

theorem trailing_aside {β : Type} {p : M β} {Q : β → Option String → Prop}
    (hp : p.Only (·.isAside)) (hQ : ∀ a, Q a made) : wp trailing.effect p Q made := by
  refine trailing_only (hp.mono fun c hc => ?_) hQ
  cases c with
  | dynamo d => cases hc
  | sqs c => exact ⟨trivial, fun h => by cases h⟩
  | proc c => exact ⟨trivial, fun h => by rw [h] at hc; cases hc⟩

theorem trailing_request {context : String} {c : DynamoCall}
    (hc : (Call.dynamo c).trails none) {Q : Except Error c.Answer → Option String → Prop}
    (hQ : ∀ a, Q a made) : wp trailing.effect (request context c) Q made :=
  trailing_only (only_request ⟨hc, fun h => by cases h⟩) hQ

theorem trailing_getJob {id : String} {Q : Except Error JobRecord → Option String → Prop}
    (hQ : ∀ a, Q a made) : wp trailing.effect (getJob id) Q made :=
  trailing_only (only_getJob ⟨trivial, fun h => by cases h⟩) hQ

theorem trailing_info {id : String} {Q : Except Error Job → Option String → Prop}
    (hQ : ∀ a, Q a made) : wp trailing.effect (info id) Q made := by
  rw [info, wp_bind]
  refine trailing_getJob fun a => ?_
  split <;> exact hQ _

theorem trailing_updateWorkflow {id : String} {us : List WorkflowUpdate}
    {Q : Except Error Unit → Option String → Prop} (hQ : ∀ a, Q a made) :
    wp trailing.effect (updateWorkflow id us) Q made := by
  rw [updateWorkflow, wp_ite]
  split
  · exact hQ _
  · exact trailing_request (c := .updateWorkflowItem id us) trivial hQ

/-- A push of a new job trails. -/
theorem trailing_spawn {β : Type} {p : M β} {Q : β → Option String → Prop}
    (h : wp (spawning Unit).effect p (fun _ _ => True) made) (hQ : ∀ a o, Q a o) :
    wp trailing.effect p Q made := by
  have hf : ∀ x c, (spawning Unit).allow x c → trailing.allow x c ∧
      ∀ r, trailing.next x c r = (spawning Unit).next x c r := fun x c hc => by
    cases c with
    | dynamo d =>
      cases d <;> first | exact ⟨hc, fun _ => rfl⟩ | exact ⟨trivial, fun _ => rfl⟩
    | sqs c => exact ⟨trivial, fun _ => rfl⟩
    | proc c => exact ⟨trivial, fun _ => rfl⟩
  exact Monitor.wp_embed (fun o => o) hf h fun a o _ => hQ a o

theorem trailing_storeResult {wfID : String} {stepIdx : Int} {result : Option String}
    {Q : Unit → Option String → Prop} (hQ : Q () made) :
    wp trailing.effect (storeResult wfID stepIdx result) Q made := by
  cases result with
  | none => exact hQ
  | some res =>
    show wp _ (if res = "" then _ else _) Q _
    rw [wp_ite]
    split
    · exact hQ
    · rw [wp_bind]
      exact trailing_request (c := .putWorkflowResultItem wfID stepIdx res) trivial fun _ => hQ

theorem trailing_advanceChain {wfID : String} {wf : WorkflowRecord} {stepIdx : Int}
    {failed : Bool} {Q : Except Error Unit → Option String → Prop} (hQ : ∀ a o, Q a o) :
    wp trailing.effect (advanceChain cfg wfID wf stepIdx failed) Q made := by
  rw [advanceChain, wp_ite]
  split
  · rw [wp_bind]
    refine trailing_aside (only_nowFormatted cfg) fun now => ?_
    rw [wp_bind]
    exact trailing_updateWorkflow fun _ => hQ _ _
  · rw [wp_ite]
    split
    · rw [wp_bind]
      refine trailing_aside (only_nowFormatted cfg) fun now => ?_
      rw [wp_bind]
      exact trailing_updateWorkflow fun _ => hQ _ _
    · rw [wp_bind]
      refine trailing_updateWorkflow fun _ => ?_
      exact trailing_spawn (spawning_enqueueChainStep cfg fun _ _ => trivial) hQ

theorem trailing_finishGroup {wfID : String} {wf : WorkflowRecord} {failed : Bool}
    {Q : Except Error Unit → Option String → Prop} (hQ : ∀ a o, Q a o) :
    wp trailing.effect (finishGroup cfg wfID wf failed) Q made := by
  rw [finishGroup, wp_bind]
  refine trailing_aside (only_nowFormatted cfg) fun now => ?_
  rw [wp_bind]
  refine trailing_updateWorkflow fun _ => ?_
  show wp trailing.effect (if wf.type = "batch" then _ >>= _ else _) Q made
  rw [wp_ite]
  split
  · rw [wp_bind]
    exact trailing_spawn (spawning_fireBatchCallbacks cfg fun _ => trivial) fun _ o => hQ _ o
  · exact hQ _ _

theorem trailing_advanceGroup {wfID : String} {wf : WorkflowRecord} {failed : Bool}
    {Q : Except Error Unit → Option String → Prop} (hQ : ∀ a o, Q a o) :
    wp trailing.effect (advanceGroup cfg wfID wf failed) Q made := by
  rw [advanceGroup, wp_bind]
  refine trailing_updateWorkflow fun _ => ?_
  rw [wp_ite]
  split
  · exact trailing_finishGroup cfg hQ
  · exact hQ _ _

end

/-! ## After the write -/

section
variable (cfg : Config) {id : String} {o : Ending} {a : Written}

/-- A stretch that trails, after the write. -/
theorem closing_trail {β : Type} {p : M β} {Q : β → Closing → Prop} {P : β → Option String → Prop}
    (h : wp trailing.effect p P a.made) (hQ : ∀ b u, P b u → Q b (.wrote { a with made := u })) :
    wp (closing id o).effect p Q (.wrote a) := by
  have hf : ∀ u c, trailing.allow u c → (closing id o).allow (.wrote { a with made := u }) c ∧
      ∀ r, (closing id o).next (.wrote { a with made := u }) c r =
        .wrote { a with made := trailing.next u c r } := fun u c hc => by
    cases c with
    | dynamo d => cases d <;> first | exact ⟨hc, fun _ => rfl⟩ | cases hc
    | sqs c => exact ⟨trivial, fun _ => rfl⟩
    | proc c => exact ⟨trivial, fun _ => rfl⟩
  exact Monitor.wp_embed (fun u => Closing.wrote { a with made := u }) hf h hQ

/-- The call of `AdvanceWorkflow` for a job that has not been cancelled. -/
theorem closing_advanceWorkflowOf (ha : a.state ≠ .cancelled) (hadv : a.advanced = false)
    {st : JobState} {result : Option String} {Q : Unit → Closing → Prop}
    (hQ : ∀ adv u, Q () (.wrote { a with advanced := adv, made := u })) :
    wp (closing id o).effect (advanceWorkflowOf cfg id st result) Q (.wrote a) := by
  have hdone : Q () (.wrote a) := hQ a.advanced a.made
  rw [advanceWorkflowOf, wp_bind]
  refine closing_trail (P := fun _ u => u = a.made) (trailing_getJob fun _ => rfl) ?_
  rintro b _ rfl
  split
  · exact hdone
  · rw [wp_ite]
    split
    · exact hdone
    · rw [wp_bind, advanceWorkflow, wp_bind, getWorkflowRecord, wp_bind]
      refine ⟨⟨ha, hadv⟩, fun b => ?_⟩
      rcases b with e | _ | wf
      · exact hQ true a.made
      · exact hQ true a.made
      · show wp (closing id o).effect (if wf.state ≠ .running then _ else _) _
          (.wrote { a with advanced := true })
        rw [wp_ite]
        split
        · exact hQ true a.made
        · rw [wp_bind]
          refine closing_trail (P := fun _ u => u = a.made) (trailing_getJob fun _ => rfl) ?_
          rintro b _ rfl
          split
          · exact hQ true a.made
          · rw [wp_bind]
            refine closing_trail (P := fun _ u => u = a.made) (trailing_storeResult rfl) ?_
            rintro _ _ rfl
            rw [wp_ite]
            split
            · exact closing_trail (P := fun _ _ => True)
                (trailing_advanceChain cfg fun _ _ => trivial) fun _ u _ => hQ true u
            · exact closing_trail (P := fun _ _ => True)
                (trailing_advanceGroup cfg fun _ _ => trivial) fun _ u _ => hQ true u

end

/-! ## The check and the write -/

section
variable (cfg : Config) {id : String} {o : Ending}

theorem closing_gone {β : Type} {p : M β} {Q : β → Closing → Prop} (hQ : ∀ a, Q a .gone) :
    wp (closing id o).effect p Q .gone := by
  induction p with
  | pure a => exact hQ a
  | call c k ih => exact ⟨trivial, fun r => ih r⟩

/-- The state check, of a call that has made no other call yet. -/
theorem closing_check {Q : Except Error JobRecord → Closing → Prop}
    (herr : ∀ e, Q (.error e) .refused)
    (hpass : ∀ r, o.accepts r.state = true → Q (.ok r) .checked)
    (hfail : ∀ r, o.accepts r.state = false → Q (.ok r) .refused) :
    wp (closing id o).effect (getJob id) Q .start := by
  rw [getJob, wp_bind]
  refine ⟨rfl, fun a => ?_⟩
  rcases a with e | _ | r
  · exact herr _
  · exact herr _
  · cases hr : o.accepts r.state with
    | true =>
      rw [show (closing id o).next .start (.dynamo (.getJobItem id)) (.ok (some r)) = .checked from
        if_pos hr]
      exact hpass r hr
    | false =>
      rw [show (closing id o).next .start (.dynamo (.getJobItem id)) (.ok (some r)) = .refused from
        if_neg (by rw [hr]; decide)]
      exact hfail r hr

theorem closing_aside {β : Type} {p : M β} {Q : β → Closing → Prop} (hp : p.Only (·.isAside))
    (hQ : ∀ a, Q a .checked) : wp (closing id o).effect p Q .checked := by
  refine Monitor.wp_only hp (fun c hc => ⟨.inl hc, fun r => ?_⟩) hQ
  cases c with
  | dynamo d => cases hc
  | sqs c => rfl
  | proc c => rfl

/-- The write of the record, with the read that goes before it. -/
theorem closing_updateJobState {s : JobState} {us : List JobUpdate}
    {Q : Except Error Unit → Closing → Prop} (hs : o.writes s = true)
    (hok : Q (.ok ()) (.wrote { state := s })) (hgone : ∀ a, Q a .gone) :
    wp (closing id o).effect (updateJobState id s us) Q .checked := by
  rw [updateJobState, wp_bind, getJob, wp_bind]
  refine ⟨.inr (.inr (.inl rfl)), fun a => ?_⟩
  rcases a with e | _ | r
  · exact hgone _
  · exact hgone _
  · show wp (closing id o).effect (request "failed to update job state"
      (.updateJobItem id s us (gsi1skOf s r.createdAt) (gsi2pkOf s))) Q .checked
    rw [request, wp_bind]
    refine ⟨.inr (.inr (.inr ⟨s, us, _, _, rfl, hs⟩)), fun a => ?_⟩
    rcases a with e | u
    · exact hgone _
    · exact hok

theorem closing_removeDueJob {x : DueIndex} {Q : Except Error Unit → Closing → Prop}
    (hQ : ∀ a, Q a .checked) :
    wp (closing id o).effect (removeDueJob x id) Q .checked := by
  rw [removeDueJob, request, wp_bind]
  refine ⟨.inr (.inl ⟨x, rfl⟩), fun a => ?_⟩
  rcases a with e | u <;> exact hQ _

theorem closing_ack (result : Option String) :
    (closing id (.ack result)).Conforms ((Ending.ack result).prog cfg id) .start := by
  rw [Monitor.Conforms, Ending.prog, wp_map, ack, wp_bind]
  refine closing_check (fun e => rfl) (fun r hr => ?_) fun r hr => ?_
  · have hr : r.state = .active := of_decide_eq_true hr
    simp only [hr, ne_eq, not_true_eq_false, if_false]
    rw [wp_bind]
    refine closing_aside (only_nowFormatted cfg) fun now => ?_
    rw [wp_bind]
    refine closing_aside (only_dropMessage cfg r) fun _ => ?_
    rw [wp_bind]
    refine closing_updateJobState rfl ?_ fun a => closing_gone fun _ => trivial
    simp only
    rw [wp_bind, incrementQueueCompleted, request, wp_bind]
    refine ⟨⟨rfl, rfl⟩, fun a => ?_⟩
    have hrest : wp (closing id (.ack result)).effect (do
        advanceWorkflowOf cfg id .completed result
        let job ← info id
        return .ok ⟨id, .completed, now, job.toOption⟩ : M (Except Error AckResponse))
        (fun a => (closing id (.ack result)).accept (Except.map (fun _ => ()) a))
        (.wrote { state := .completed, counted := true }) := by
      rw [wp_bind]
      refine closing_advanceWorkflowOf cfg (by decide) rfl fun adv u => ?_
      rw [wp_bind]
      exact closing_trail (P := fun _ _ => True) (trailing_info fun _ => trivial)
        fun _ _ _ => trivial
    rcases a with e | u <;> exact hrest
  · have hr : r.state ≠ .active := of_decide_eq_false hr
    simp only [hr, ne_eq, not_false_eq_true, if_true]
    rfl

theorem closing_nack (jobErr : Option JobError) :
    (closing id (.nack jobErr)).Conforms ((Ending.nack jobErr).prog cfg id) .start := by
  rw [Monitor.Conforms, Ending.prog, wp_map, nack, wp_bind]
  refine closing_check (fun e => rfl) (fun r hr => ?_) fun r hr => ?_
  · have hr : r.state = .active := of_decide_eq_true hr
    simp only [hr, ne_eq, not_true_eq_false, if_false]
    rw [wp_bind]
    refine closing_aside only_timeNow fun now => ?_
    simp only [Bool.false_eq_true, if_false, wp_ite]
    split
    · rw [nackDiscard, wp_bind]
      refine closing_aside (only_deleteMessageOf cfg r _ _) fun a => ?_
      split
      · rfl
      · rw [wp_bind]
        refine closing_updateJobState rfl ?_ fun a => closing_gone fun _ => trivial
        simp only
        rw [wp_bind]
        have hmark : wp trailing.effect (markDeadLetter r.retry.unmarshal id)
            (fun _ u => u = none) none := by
          rw [markDeadLetter, wp_ite]
          split
          · exact trailing_request (c := .putDeadLetterItem id) trivial fun _ => rfl
          · rfl
        refine closing_trail (a := { state := .discarded }) hmark ?_
        rintro a _ rfl
        split
        · trivial
        · rw [wp_bind]
          refine closing_advanceWorkflowOf cfg (by decide) rfl fun adv u => ?_
          rw [wp_bind]
          refine closing_trail (P := fun _ _ => True) (trailing_info fun _ => trivial)
            fun b _ _ => ?_
          split <;> trivial
    · rw [nackRetry, wp_bind]
      refine closing_aside (only_deleteMessageOf cfg r _ _) fun a => ?_
      split
      · rfl
      · rw [wp_bind]
        refine closing_updateJobState rfl ?_ fun a => closing_gone fun _ => trivial
        simp only
        rw [wp_bind]
        refine closing_trail (P := fun _ _ => True)
          (trailing_request (c := .putDueItem .retry id _) trivial fun _ => trivial) fun b _ _ => ?_
        split
        · trivial
        · rw [wp_bind]
          refine closing_trail (P := fun _ _ => True) (trailing_info fun _ => trivial)
            fun b _ _ => ?_
          split <;> trivial
  · have hr : r.state ≠ .active := of_decide_eq_false hr
    simp only [hr, ne_eq, not_false_eq_true, if_true]
    rfl

theorem closing_cancel : (closing id .cancel).Conforms (Ending.cancel.prog cfg id) .start := by
  rw [Monitor.Conforms, Ending.prog, wp_map, cancel, wp_bind]
  refine closing_check (fun e => rfl) (fun r hr => ?_) fun r hr => ?_
  · have hr : isTerminalState r.state = false := by simpa [Ending.accepts] using hr
    simp only [hr, Bool.false_eq_true, if_false]
    rw [wp_bind]
    refine closing_aside (only_nowFormatted cfg) fun now => ?_
    rw [wp_bind]
    refine closing_aside (only_dropMessage cfg r) fun _ => ?_
    rw [wp_bind]
    refine closing_removeDueJob fun _ => ?_
    rw [wp_bind]
    refine closing_removeDueJob fun _ => ?_
    rw [wp_bind]
    exact closing_updateJobState rfl trivial fun _ => trivial
  · have hr : isTerminalState r.state = true := by simpa [Ending.accepts] using hr
    simp only [hr, if_true]
    rfl

theorem closing_prog (o : Ending) : (closing id o).Conforms (o.prog cfg id) .start := by
  cases o with
  | ack result => exact closing_ack cfg result
  | nack jobErr => exact closing_nack cfg jobErr
  | cancel => exact closing_cancel cfg

end

end OjsSqs
