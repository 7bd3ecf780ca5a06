import OjsSqs.Atomic.Steps
import OjsSqs.Faults.Rules
import OjsSqs.Racing.Endings

/-! # A workflow that is cancelled while it advances

One CancelWorkflow runs next to any number of AdvanceWorkflow calls of the same
workflow. It stays cancelled when no AdvanceWorkflow writes a final state after
it has, none pushes a step whose job it does not find on the list, and the list fits
one response. Calls may fail, but for those CancelWorkflow does its work with. -/
namespace OjsSqs
open Calls

variable {ι : Type}

/-- A call on the workflow. -/
inductive WorkflowCall where
  | cancel
  | advance (jobID : String) (result : Option String) (failed : Bool)

def WorkflowCall.prog (cfg : Config) (wfID : String) : WorkflowCall → M (Except Error Unit)
  | .cancel => (·.map fun _ => ()) <$> cancelWorkflow cfg wfID
  | .advance jobID result failed => advanceWorkflow cfg wfID jobID result failed

namespace WorkflowUpdate

def setsState : WorkflowUpdate → Bool
  | .state _ => true
  | _ => false

end WorkflowUpdate

namespace Call

/-- The call writes the state of the workflow. -/
def setsState (wfID : String) : Call → Bool
  | .dynamo (.putWorkflowItem wf) => decide (wf.id = wfID)
  | .dynamo (.updateWorkflowItem id us) => decide (id = wfID) && us.any (·.setsState)
  | _ => false

/-- The job of the workflow that the call stores. -/
def createsFor (wfID : String) : Call → Option String
  | .dynamo (.putJobItem r) => if r.workflowID = wfID then some r.id else none
  | _ => none

/-- CancelWorkflow does its work with such calls. -/
def callsOff : Call → Bool
  | .dynamo (.getJobItem _) | .dynamo (.updateJobItem _ _ _ _ _) | .dynamo (.queryWorkflowJobs _)
  | .dynamo (.updateWorkflowItem _ _) => true
  | _ => false

/-- The call updates no job. -/
def spares : Call → Bool
  | .dynamo (.updateJobItem _ _ _ _ _) => false
  | _ => true

end Call

/-- Updates without a state leave the state. -/
theorem WorkflowRecord.update_state_of (us : List WorkflowUpdate)
    (hus : us.any (·.setsState) = false) (wf : WorkflowRecord) : (wf.update us).state = wf.state := by
  induction us generalizing wf with
  | nil => rfl
  | cons u us ih =>
    rw [List.any_cons, Bool.or_eq_false_iff] at hus
    refine (ih hus.2 (u.apply wf)).trans ?_
    cases u <;> first | rfl | cases hus.1

/-- The event writes the state of the workflow. -/
def setsState (wfID : String) (e : Event ι Call Answer) : Bool :=
  !callFailed e.call e.answer && e.call.setsState wfID

/-- The job of the workflow that the event stores. -/
def createdFor (wfID : String) (e : Event ι Call Answer) : Option String :=
  if callFailed e.call e.answer then none else e.call.createsFor wfID

/-- The event puts the job on the list of the workflow's jobs. -/
def AddsTo (wfID id : String) (e : Event ι Call Answer) : Prop :=
  e.call = .dynamo (.putWorkflowJobItem wfID id) ∧ callFailed e.call e.answer = false

instance (wfID id : String) (e : Event ι Call Answer) : Decidable (AddsTo wfID id e) :=
  inferInstanceAs (Decidable (_ ∧ _))

/-- The jobs on the list that is answered. -/
def jobsListed : Event ι Call Answer → Option (List String)
  | ⟨_, .dynamo (.queryWorkflowJobs _), .ok ids⟩ => some ids
  | _ => none

/-- What a run has to keep apart: after CancelWorkflow, the call `k`, has
written the state no other call does, after it has read the list of jobs none
is created, and when it reads the list every job is on it. All of the list is
answered, and no call of it that matters fails. -/
structure EndsApart (wfID : String) (k : ι) (tr : List (Event ι Call Answer)) (w : World)
    (e : Event ι Call Answer) : Prop where
  state : e.thread ≠ k → setsState wfID e = true → ∀ b ∈ tr, b.thread = k →
    setsState wfID b = false
  creates : (createdFor wfID e).isSome → ∀ b ∈ tr, b.thread = k →
    b.call ≠ .dynamo (.queryWorkflowJobs wfID)
  list : e.thread = k → e.call = .dynamo (.queryWorkflowJobs wfID) →
    ∀ b ∈ tr, ∀ id, createdFor wfID b = some id → ∃ f ∈ tr, AddsTo wfID id f
  whole : e.thread = k → ∀ ids, jobsListed e = some ids → w.store.jobsOf wfID ⊆ ids
  calm : e.thread = k → e.call.callsOff = true → callFailed e.call e.answer = false

/-! ## CancelWorkflow, call by call -/

/-- Where CancelWorkflow stands. `lost` is a request that has failed. -/
inductive Calling where
  | start
  | found
  | walking (todo : List String)
  | holding (id : String) (todo : List String)
  | closing (id : String) (todo : List String)
  | done
  | refused
  | lost

/-- The calls of a Cancel but for its read and its write of the job. -/
def Call.closes (id : String) : Call → Bool
  | .dynamo (.deleteDueItem _ k) => decide (k = id)
  | c => c.isAside

/-- Follows CancelWorkflow. -/
def callingOff (wfID : String) : Monitor Calling Call Answer (Except Error Unit) where
  allow
    | .start, c => c = .dynamo (.getWorkflowItem wfID)
    | .found, c => c = .dynamo (.queryWorkflowJobs wfID)
    | .walking (id :: _), c => c = .dynamo (.getJobItem id)
    | .walking [], c => c = .proc .now ∨
        ∃ now, c = .dynamo (.updateWorkflowItem wfID [.state .cancelled, .completedAt now])
    | .holding id _, c => c = .dynamo (.getJobItem id)
    | .closing id _, c => c.closes id = true ∨ c = .dynamo (.getJobItem id) ∨
        ∃ us sk pk, c = .dynamo (.updateJobItem id .cancelled us sk pk)
    | .done, _ | .refused, _ => False
    | .lost, _ => True
  next
    | .start, .dynamo (.getWorkflowItem _), .ok (some wf) =>
      if wf.state = .running then .found else .refused
    | .start, _, _ => .refused
    | .found, .dynamo (.queryWorkflowJobs _), .ok ids => .walking ids
    | .found, _, _ => .lost
    | .walking (id :: todo), .dynamo (.getJobItem _), .ok (some r) =>
      if isTerminalState r.state then .walking todo else .holding id todo
    | .walking (_ :: todo), .dynamo (.getJobItem _), .ok none => .walking todo
    | .walking (_ :: _), _, _ => .lost
    | .walking [], .dynamo (.updateWorkflowItem _ _), .ok _ => .done
    | .walking [], .dynamo (.updateWorkflowItem _ _), .error _ => .lost
    | .holding id todo, .dynamo (.getJobItem _), .ok (some r) =>
      if isTerminalState r.state then .walking todo else .closing id todo
    | .holding _ _, _, _ => .lost
    | .closing id todo, .dynamo (.getJobItem _), .ok (some _) => .closing id todo
    | .closing _ _, .dynamo (.getJobItem _), _ => .lost
    | .closing _ todo, .dynamo (.updateJobItem _ _ _ _ _), .ok _ => .walking todo
    | .closing _ _, .dynamo (.updateJobItem _ _ _ _ _), .error _ => .lost
    | s, _, _ => s
  accept
    | _, .done | _, .lost => True
    | a, _ => a.isOk = false

section
variable {cfg : Config} {wfID id : String} {todo : List String}

theorem callingOff_lost {β : Type} {p : M β} {Q : β → Calling → Prop} (hQ : ∀ a, Q a .lost) :
    wp (callingOff wfID).effect p Q .lost := by
  induction p with
  | pure a => exact hQ a
  | call c _ ih => exact ⟨trivial, fun r => ih r⟩

theorem callingOff_aside {β : Type} {p : M β} {Q : β → Calling → Prop} (hp : p.Only (·.isAside))
    (hQ : ∀ a, Q a (.closing id todo)) : wp (callingOff wfID).effect p Q (.closing id todo) := by
  refine Monitor.wp_only hp (fun c hc => ?_) hQ
  cases c with
  | dynamo d => cases hc
  | _ => exact ⟨.inl hc, fun _ => rfl⟩

theorem callingOff_removeDueJob {i : DueIndex} {Q : Except Error Unit → Calling → Prop}
    (hQ : ∀ a, Q a (.closing id todo)) :
    wp (callingOff wfID).effect (removeDueJob i id) Q (.closing id todo) := by
  rw [removeDueJob, request, wp_bind]
  refine ⟨.inl (decide_eq_true rfl), fun a => ?_⟩
  cases a <;> exact hQ _

/-- A Cancel of one job of the list. -/
theorem callingOff_cancel : wp (callingOff wfID).effect (cancel cfg id)
    (fun _ s => s = .walking todo ∨ s = .lost) (.holding id todo) := by
  have hlost : ∀ {β : Type} {p : M β}, wp (callingOff wfID).effect p
      (fun _ s => s = Calling.walking todo ∨ s = .lost) .lost := callingOff_lost fun _ => .inr rfl
  rw [cancel, wp_bind, getJob, wp_bind]
  refine ⟨rfl, fun a => ?_⟩
  rcases a with e | _ | record
  · exact .inr rfl
  · exact .inr rfl
  · show wp (callingOff wfID).effect (if isTerminalState record.state then _ else _) _
      (if isTerminalState record.state then Calling.walking todo else .closing id todo)
    split
    · exact .inl rfl
    · rw [wp_bind]
      refine callingOff_aside (only_nowFormatted cfg) fun now => ?_
      rw [wp_bind]
      refine callingOff_aside (only_dropMessage cfg record) fun _ => ?_
      rw [wp_bind]
      refine callingOff_removeDueJob fun _ => ?_
      rw [wp_bind]
      refine callingOff_removeDueJob fun _ => ?_
      rw [wp_bind, updateJobState, wp_bind, getJob, wp_bind]
      refine ⟨.inr (.inl rfl), fun a => ?_⟩
      rcases a with e | _ | r
      · exact .inr rfl
      · exact .inr rfl
      · refine ⟨.inr (.inr ⟨_, _, _, rfl⟩), fun a => ?_⟩
        cases a with
        | error e => exact .inr rfl
        | ok u => exact .inl rfl

theorem callingOff_cancelJobs {Q : Unit → Calling → Prop} (ids : List String)
    (hQ : Q () (.walking [])) (hlost : Q () .lost) :
    wp (callingOff wfID).effect (cancelJobs cfg ids) Q (.walking ids) := by
  induction ids with
  | nil => exact hQ
  | cons id ids ih =>
    rw [cancelJobs, wp_bind, getJob, wp_bind]
    refine ⟨rfl, fun a => ?_⟩
    rcases a with e | _ | record
    · exact callingOff_lost fun _ => callingOff_lost fun _ => callingOff_lost fun _ => hlost
    · exact ih
    · show wp (callingOff wfID).effect (if isTerminalState record.state then _ else _) _
        (if isTerminalState record.state then Calling.walking ids else .holding id ids)
      split
      · exact ih
      · rw [wp_bind]
        refine wp_mono (Monitor.effect_mono _) _ callingOff_cancel ?_
        rintro _ _ (rfl | rfl)
        · exact ih
        · exact callingOff_lost fun _ => hlost

theorem callingOff_cancelWorkflow :
    (callingOff wfID).Conforms (WorkflowCall.cancel.prog cfg wfID) .start := by
  rw [Monitor.Conforms, WorkflowCall.prog, wp_map, cancelWorkflow, wp_bind, getWorkflow, wp_bind,
    getWorkflowRecord, wp_bind]
  refine ⟨rfl, fun a => ?_⟩
  rcases a with e | _ | wf
  · rfl
  · rfl
  · show wp (callingOff wfID).effect
      (if wf.state = .completed ∨ wf.state = .failed ∨ wf.state = .cancelled then _ else _) _
      (if wf.state = .running then Calling.found else .refused)
    cases hs : wf.state with
    | running =>
      rw [if_neg (by decide), if_pos rfl, wp_bind, getWorkflowJobs, request, wp_bind]
      refine ⟨rfl, fun a => ?_⟩
      cases a with
      | error e => exact callingOff_lost fun _ => callingOff_lost fun _ => callingOff_lost fun _ => trivial
      | ok ids =>
        show wp (callingOff wfID).effect (cancelJobs cfg ids >>= _) _ (.walking ids)
        rw [wp_bind]
        refine callingOff_cancelJobs ids ?_ (callingOff_lost fun _ => trivial)
        refine ⟨.inl rfl, fun now => ?_⟩
        refine ⟨.inr ⟨_, rfl⟩, fun a => ?_⟩
        cases a <;> trivial
    | completed => rfl
    | failed => rfl
    | cancelled => rfl

end

/-! ## AdvanceWorkflow -/

/-- Follows an AdvanceWorkflow: it updates no job. -/
def sparing : Monitor Calling Call Answer (Except Error Unit) where
  allow _ c := c.spares = true
  next s _ _ := s
  accept _ _ := True

theorem Call.trails.spares {c : Call} {made : Option String} (h : c.trails made) :
    c.spares = true := by
  cases c with
  | dynamo d => cases d <;> first | rfl | cases h
  | sqs c => rfl
  | proc c => rfl

theorem spares_of_trailing {β : Type} {p : M β} {Q : β → Option String → Prop}
    {made : Option String} (h : wp trailing.effect p Q made) : p.Only (·.spares = true) :=
  Monitor.only_of_wp (fun _ _ hc => Call.trails.spares hc) h

theorem only_advanceWorkflow (cfg : Config) (wfID jobID : String) (result : Option String)
    (failed : Bool) : (advanceWorkflow cfg wfID jobID result failed).Only (·.spares = true) := by
  have hread : (getWorkflowRecord wfID).Only (·.spares = true) := by
    refine Prog.only_bind (Prog.only_perform rfl) fun a => ?_
    rcases a with e | _ | wf <;> exact Prog.only_pure _
  refine Prog.only_bind hread fun a => ?_
  cases a with
  | error e => exact Prog.only_pure _
  | ok wf =>
    show Prog.Only _ (if wf.state ≠ .running then _ else _)
    split
    · exact Prog.only_pure _
    · refine Prog.only_bind (only_getJob rfl) fun a => ?_
      cases a with
      | error e => exact Prog.only_pure _
      | ok jobRecord =>
        have hstore : wp trailing.effect (storeResult wfID jobRecord.workflowStep result)
            (fun _ _ => True) none := trailing_storeResult trivial
        refine Prog.only_bind (spares_of_trailing hstore) fun _ => ?_
        split
        · exact @spares_of_trailing _ _ (fun _ _ => True) none
            (trailing_advanceChain cfg fun _ _ => trivial)
        · exact @spares_of_trailing _ _ (fun _ _ => True) none
            (trailing_advanceGroup cfg fun _ _ => trivial)

def WorkflowCall.monitor (wfID : String) : WorkflowCall → Monitor Calling Call Answer (Except Error Unit)
  | .cancel => callingOff wfID
  | .advance _ _ _ => sparing

theorem WorkflowCall.conforms {cfg : Config} {wfID : String} (o : WorkflowCall) :
    (o.monitor wfID).Conforms (o.prog cfg wfID) .start := by
  cases o with
  | cancel => exact callingOff_cancelWorkflow
  | advance jobID result failed =>
    exact Monitor.wp_only (only_advanceWorkflow cfg wfID jobID result failed)
      (fun c hc => ⟨hc, fun _ => rfl⟩) fun _ => trivial

/-! ## The invariant -/

/-- The jobs CancelWorkflow still has to look at, once it has read its list. -/
def Calling.todo : Calling → Option (List String)
  | .walking todo => some todo
  | .holding id todo | .closing id todo => some (id :: todo)
  | .done => some []
  | _ => none

/-- The job CancelWorkflow has found not to be terminal. -/
def Calling.held : Calling → Option String
  | .holding id _ | .closing id _ => some id
  | _ => none

/-- What is known when CancelWorkflow, the call `k`, stands at `s`. -/
structure CallsOff (wfID : String) (k : ι) (tr : List (Event ι Call Answer)) (w : World)
    (s : Calling) : Prop where
  here : s ≠ .lost
  entries : ∀ f ∈ tr, ∀ id, AddsTo wfID id f → (wfID, id) ∈ w.store.workflowJobs
  listed : s.todo = none → ∀ id r, w.store.jobs.lookup id = some r → r.workflowID = wfID →
    (wfID, id) ∈ w.store.workflowJobs ∨ ∃ b ∈ tr, createdFor wfID b = some id
  queried : s.todo ≠ none → ∃ b ∈ tr, b.thread = k ∧ b.call = .dynamo (.queryWorkflowJobs wfID)
  left : ∀ todo, s.todo = some todo → ∀ id r, w.store.jobs.lookup id = some r →
    r.workflowID = wfID → isTerminalState r.state = true ∨ id ∈ todo
  stored : s ≠ .start → s ≠ .refused → (w.store.workflows.lookup wfID).isSome
  held : ∀ id, s.held = some id → (w.store.jobs.lookup id).isSome
  ended : s = .done → (∃ b ∈ tr, b.thread = k ∧ setsState wfID b = true) ∧
    ∃ wf, w.store.workflows.lookup wfID = some wf ∧ wf.state = .cancelled

/-! ## What the calls leave -/

section
variable {ρ : Rules} {w w' : World} {c : Call} {a : Answer c} {wfID : String}

/-- Entries of the job list stay. -/
theorem Rules.env_entries (h : ρ.env c w a w') {x : String × String}
    (hx : x ∈ w.store.workflowJobs) : x ∈ w'.store.workflowJobs := by
  cases c with
  | dynamo d =>
    obtain ⟨ch, s', -, he, rfl⟩ := Rules.env_dynamo h
    rcases Store.act_cases he with hr | rfl
    · rw [World.setStore, show s' = (w.store.run d).2 from congrArg Prod.snd hr]
      cases d with
      | putWorkflowJobItem wf id =>
        by_cases hid : x = (wf, id)
        · exact List.mem_append_right _ (List.mem_singleton.mpr hid)
        · exact List.mem_append_left _ (List.mem_filter.mpr ⟨hx, decide_eq_true hid⟩)
      | _ =>
        simp only [Store.run]
        (try split) <;> exact hx
    · exact hx
  | sqs c => rwa [Rules.env_aside (fun _ hd => by cases hd) h]
  | proc c => rwa [Rules.env_aside (fun _ hd => by cases hd) h]

/-- A stored workflow stays stored, and keeps its state when the event does not
set it. -/
theorem Rules.env_wfState (i : ι) (h : ρ.env c w a w') {wf : WorkflowRecord}
    (hwf : w.store.workflows.lookup wfID = some wf) :
    ∃ wf', w'.store.workflows.lookup wfID = some wf' ∧
      (setsState wfID (⟨i, c, a⟩ : Event ι Call Answer) = false → wf'.state = wf.state) := by
  by_cases hc : c.writesWorkflow = some wfID
  · cases c with
    | dynamo d =>
      have hpaged : d.isPaged = false := by cases d <;> first | rfl | cases hc
      rcases Rules.env_dynamo_cases hpaged h with ⟨msg, -, rfl⟩ | ⟨rfl, rfl⟩
      · exact ⟨wf, hwf, fun _ => rfl⟩
      · simp only [setsState, Store.run_not_failed, Bool.not_false, Bool.true_and]
        rw [World.setStore]
        cases d with
        | putWorkflowItem x =>
          obtain rfl : x.id = wfID := Option.some.inj hc
          refine ⟨x, AList.lookup_insert _, fun hs => ?_⟩
          rw [Call.setsState, decide_eq_true rfl] at hs
          cases hs
        | updateWorkflowItem id us =>
          obtain rfl : id = wfID := Option.some.inj hc
          refine ⟨wf.update us, by simp only [Store.run, hwf, AList.lookup_insert], fun hs => ?_⟩
          rw [Call.setsState, decide_eq_true rfl, Bool.true_and] at hs
          exact WorkflowRecord.update_state_of us hs wf
        | _ => cases hc
    | sqs c => cases hc
    | proc c => cases hc
  · exact ⟨wf, (Rules.env_workflow hc h).trans hwf, fun _ => rfl⟩

/-- A record of the workflow's job is one that was there, or a new one. -/
theorem Rules.env_created (i : ι) (hc : c.spares = true) (h : ρ.env c w a w') {id : String}
    {r : JobRecord} (hr : w'.store.jobs.lookup id = some r) (hwf : r.workflowID = wfID) :
    w.store.jobs.lookup id = some r ∨
      createdFor wfID (⟨i, c, a⟩ : Event ι Call Answer) = some id := by
  by_cases hw : c.writesJob = some id
  · cases c with
    | dynamo d =>
      cases d with
      | putJobItem x =>
        obtain rfl : x.id = id := Option.some.inj hw
        rcases Rules.env_dynamo_cases rfl h with ⟨msg, -, rfl⟩ | ⟨rfl, rfl⟩
        · exact .inl hr
        · rw [World.setStore, Store.run, AList.lookup_insert] at hr
          cases hr
          exact .inr (if_pos hwf)
      | updateJobItem _ _ _ _ _ => cases hc
      | _ => cases hw
    | sqs c => cases hw
    | proc c => cases hw
  · exact .inl ((Rules.env_job hw h).symm.trans hr)

end

/-! ## One step -/

section
variable {wfID : String} {k i : ι} {tr : List (Event ι Call Answer)} {w w' : World}
  {s s' : Calling} {c : Call} {a : Answer c} {ρ : Rules} (h : CallsOff wfID k tr w s)
  (he : ρ.env c w a w')
include h he

theorem CallsOff.entries_append : ∀ f ∈ tr ++ [⟨i, c, a⟩], ∀ id, AddsTo wfID id f →
    (wfID, id) ∈ w'.store.workflowJobs := by
  rintro f hf id ⟨hput, hdone⟩
  rcases List.mem_append.mp hf with hf | hf
  · exact Rules.env_entries he (h.entries f hf id ⟨hput, hdone⟩)
  · rw [List.mem_singleton.mp hf] at hput hdone
    subst hput
    obtain ⟨-, rfl⟩ := Rules.env_done rfl he hdone
    exact List.mem_append_right _ (List.mem_singleton_self _)

/-- A call that updates no job, and leaves CancelWorkflow with the same jobs to
look at. -/
theorem CallsOff.quiet (hc : c.spares = true) (hok : EndsApart wfID k tr w ⟨i, c, a⟩)
    (hhere : s' ≠ .lost) (htodo : s'.todo = s.todo)
    (hstored : s' ≠ .start → s' ≠ .refused → (w'.store.workflows.lookup wfID).isSome)
    (hheld : ∀ id, s'.held = some id → (w'.store.jobs.lookup id).isSome)
    (hended : s' = .done → s = .done ∧ i ≠ k) :
    CallsOff wfID k (tr ++ [⟨i, c, a⟩]) w' s' where
  here := hhere
  entries := h.entries_append he
  listed hnone id r hr hwf := by
    rw [htodo] at hnone
    rcases Rules.env_created i hc he hr hwf with hold | hnew
    · rcases h.listed hnone id r hold hwf with hl | ⟨b, hb, hby⟩
      · exact .inl (Rules.env_entries he hl)
      · exact .inr ⟨b, List.mem_append_left _ hb, hby⟩
    · exact .inr ⟨_, List.mem_append_right _ (List.mem_singleton_self _), hnew⟩
  queried hsome := by
    rw [htodo] at hsome
    obtain ⟨b, hb, hby⟩ := h.queried hsome
    exact ⟨b, List.mem_append_left _ hb, hby⟩
  left todo hs id r hr hwf := by
    rw [htodo] at hs
    rcases Rules.env_created i hc he hr hwf with hold | hnew
    · exact h.left todo hs id r hold hwf
    · obtain ⟨b, hb, hbk, hby⟩ := h.queried (by rw [hs]; exact Option.some_ne_none _)
      exact absurd hby (hok.creates (by rw [hnew]; rfl) b hb hbk)
  stored := hstored
  held := hheld
  ended hd := by
    obtain ⟨hs, hik⟩ := hended hd
    obtain ⟨⟨b, hb, hbk, hby⟩, wf, hwf, hstate⟩ := h.ended hs
    obtain ⟨wf', hwf', hsame⟩ := Rules.env_wfState i he hwf
    refine ⟨⟨b, List.mem_append_left _ hb, hbk, hby⟩, wf', hwf', (hsame ?_).trans hstate⟩
    cases hset : setsState wfID ⟨i, c, a⟩ with
    | false => rfl
    | true =>
      rw [hok.state hik hset b hb hbk] at hby
      cases hby

theorem CallsOff.stored_next (hs : s ≠ .start) (hr : s ≠ .refused) :
    (w'.store.workflows.lookup wfID).isSome := by
  obtain ⟨wf, hwf⟩ := Option.isSome_iff_exists.mp (h.stored hs hr)
  obtain ⟨wf', hwf', -⟩ := Rules.env_wfState k he hwf
  rw [hwf']
  rfl

/-- A call of an AdvanceWorkflow. -/
theorem CallsOff.other (hik : i ≠ k) (hc : c.spares = true)
    (hok : EndsApart wfID k tr w ⟨i, c, a⟩) : CallsOff wfID k (tr ++ [⟨i, c, a⟩]) w' s :=
  h.quiet he hc hok h.here rfl (h.stored_next he)
    (fun id hs => Rules.env_stored he (h.held id hs)) fun hd => ⟨hd, hik⟩

/-- CancelWorkflow reads the workflow. -/
theorem CallsOff.find (hs : s = .start) (hc : c = .dynamo (.getWorkflowItem wfID))
    (hok : EndsApart wfID k tr w ⟨i, c, a⟩) :
    CallsOff wfID k (tr ++ [⟨i, c, a⟩]) w' ((callingOff wfID).next s c a) := by
  subst hs hc
  have hrefused : CallsOff wfID k (tr ++ [⟨i, .dynamo (.getWorkflowItem wfID), a⟩]) w' .refused :=
    h.quiet he rfl hok (fun hl => by cases hl) rfl (fun _ hr => absurd rfl hr)
      (fun _ hl => by cases hl) fun hd => by cases hd
  rcases Rules.env_dynamo_cases rfl he with ⟨msg, rfl, -⟩ | ⟨ha, hw⟩
  · exact hrefused
  obtain rfl : w' = w := hw
  obtain rfl : a = .ok (w'.store.workflows.lookup wfID) := ha
  cases hwf : w'.store.workflows.lookup wfID with
  | none =>
    rw [hwf] at hrefused
    exact hrefused
  | some wf =>
    show CallsOff wfID k _ w' (if wf.state = .running then .found else .refused)
    rw [hwf] at he hok hrefused
    split
    · exact h.quiet he rfl hok (fun hl => by cases hl) rfl (fun _ _ => by rw [hwf]; rfl)
        (fun _ hl => by cases hl) fun hd => by cases hd
    · exact hrefused

/-- It reads the list of its jobs: every job of the workflow is on it. -/
theorem CallsOff.list (hik : i = k) (hs : s = .found) (hc : c = .dynamo (.queryWorkflowJobs wfID))
    (hok : EndsApart wfID k tr w ⟨i, c, a⟩) :
    CallsOff wfID k (tr ++ [⟨i, c, a⟩]) w' ((callingOff wfID).next s c a) := by
  subst hs hc
  obtain rfl : w' = w := (Rules.env_queryWorkflowJobs he).1
  obtain ⟨ids, rfl⟩ := Rules.env_listed he (hok.calm hik rfl)
  show CallsOff wfID k _ w' (.walking ids)
  refine ⟨fun hl => (by cases hl), h.entries_append he, fun hn => (by cases hn), fun _ => ?_,
    fun todo ht id r hr hwf => ?_, fun _ _ => ?_, fun _ hl => (by cases hl), fun hd => by cases hd⟩
  · exact ⟨_, List.mem_append_right _ (List.mem_singleton_self _), hik, rfl⟩
  · obtain rfl := Option.some.inj ht
    have hentry : (wfID, id) ∈ w'.store.workflowJobs := by
      rcases h.listed rfl id r hr hwf with hl | ⟨b, hb, hby⟩
      · exact hl
      · obtain ⟨f, hf, hput⟩ := hok.list hik rfl b hb id hby
        exact h.entries f hf id hput
    refine .inr (hok.whole hik ids rfl (List.mem_map.mpr ⟨_, List.mem_filter.mpr ⟨hentry, ?_⟩, rfl⟩))
    exact decide_eq_true rfl
  · exact h.stored (fun hl => by cases hl) fun hl => by cases hl

/-- A read of a job, after which there may be one job less to look at. -/
theorem CallsOff.look {id : String} {todo : List String} (hs : s.todo = some (id :: todo))
    (hc : c = .dynamo (.getJobItem id)) (hok : EndsApart wfID k tr w ⟨i, c, a⟩) (hw : w' = w)
    (hhere : s' ≠ .lost) (hdone : s' ≠ .done)
    (hheld : ∀ j, s'.held = some j → (w.store.jobs.lookup j).isSome)
    (htodo : s'.todo = s.todo ∨ s'.todo = some todo ∧
      ∀ r, w.store.jobs.lookup id = some r → isTerminalState r.state = true) :
    CallsOff wfID k (tr ++ [⟨i, c, a⟩]) w' s' := by
  subst hc hw
  have hstored : (w'.store.workflows.lookup wfID).isSome :=
    h.stored (fun hl => by rw [hl] at hs; cases hs) fun hl => by rw [hl] at hs; cases hs
  rcases htodo with ht | ⟨ht, hterm⟩
  · exact h.quiet he rfl hok hhere ht (fun _ _ => hstored) hheld fun hd => absurd hd hdone
  · refine ⟨hhere, h.entries_append he, fun hn => (by rw [ht] at hn; cases hn), fun _ => ?_,
      fun todo' ht' j r hr hwf => ?_, fun _ _ => hstored, hheld, fun hd => absurd hd hdone⟩
    · obtain ⟨b, hb, hby⟩ := h.queried (by rw [hs]; exact Option.some_ne_none _)
      exact ⟨b, List.mem_append_left _ hb, hby⟩
    · obtain rfl := Option.some.inj (ht.symm.trans ht')
      rcases h.left _ hs j r hr hwf with hl | hl
      · exact .inl hl
      · rcases List.mem_cons.mp hl with rfl | hl
        · exact .inl (hterm r hr)
        · exact .inr hl

/-- It writes a job cancelled. -/
theorem CallsOff.cancel {id : String} {todo : List String} {us : List JobUpdate} {sk pk : String}
    (hs : s.todo = some (id :: todo)) (hc : c = .dynamo (.updateJobItem id .cancelled us sk pk))
    (hcalm : callFailed c a = false) : CallsOff wfID k (tr ++ [⟨i, c, a⟩]) w' (.walking todo) := by
  subst hc
  have hentries := h.entries_append (i := i) he
  have hstored := h.stored_next he (fun hl => by rw [hl] at hs; cases hs)
    fun hl => by rw [hl] at hs; cases hs
  obtain ⟨-, rfl⟩ := Rules.env_done rfl he hcalm
  refine ⟨fun hl => (by cases hl), hentries, fun hn => (by cases hn), fun _ => ?_,
    fun todo' ht j r hr hwf => ?_, fun _ _ => hstored, fun _ hl => (by cases hl), fun hd => by cases hd⟩
  · obtain ⟨b, hb, hby⟩ := h.queried (by rw [hs]; exact Option.some_ne_none _)
    exact ⟨b, List.mem_append_left _ hb, hby⟩
  · obtain rfl := Option.some.inj ht
    by_cases hj : j = id
    · subst hj
      simp only [World.setStore, Store.run, AList.lookup_insert, Option.some.injEq] at hr
      rw [← hr]
      exact .inl rfl
    · simp only [World.setStore, Store.run, AList.lookup_insert_ne hj] at hr
      rcases h.left _ hs j r hr hwf with hl | hl
      · exact .inl hl
      · exact .inr ((List.mem_cons.mp hl).resolve_left hj)

/-- It writes the workflow cancelled. -/
theorem CallsOff.finish {now : String} (hik : i = k) (hs : s.todo = some [])
    (hc : c = .dynamo (.updateWorkflowItem wfID [.state .cancelled, .completedAt now]))
    (hcalm : callFailed c a = false) : CallsOff wfID k (tr ++ [⟨i, c, a⟩]) w' .done := by
  subst hc
  have hentries := h.entries_append (i := i) he
  obtain ⟨wf, hwf⟩ := Option.isSome_iff_exists.mp
    (h.stored (fun hl => by rw [hl] at hs; cases hs) fun hl => by rw [hl] at hs; cases hs)
  obtain ⟨-, rfl⟩ := Rules.env_done rfl he hcalm
  have hset : setsState wfID (⟨i, .dynamo (.updateWorkflowItem wfID
      [.state .cancelled, .completedAt now]), a⟩ : Event ι Call Answer) = true := by
    rw [setsState, hcalm, Call.setsState, decide_eq_true rfl]
    rfl
  have hnew : (w.setStore (w.store.run (.updateWorkflowItem wfID
      [.state .cancelled, .completedAt now])).2).store.workflows.lookup wfID =
      some (wf.update [.state .cancelled, .completedAt now]) := by
    simp only [World.setStore, Store.run, hwf, AList.lookup_insert]
  have hjobs : (w.setStore (w.store.run (.updateWorkflowItem wfID
      [.state .cancelled, .completedAt now])).2).store.jobs = w.store.jobs := by
    simp only [World.setStore, Store.run, hwf]
  refine ⟨fun hl => (by cases hl), hentries, fun hn => (by cases hn), fun _ => ?_,
    fun todo ht j r hr hwf' => ?_, fun _ _ => (by rw [hnew]; rfl), fun _ hl => (by cases hl),
    fun _ => ⟨?_, _, hnew, rfl⟩⟩
  · obtain ⟨b, hb, hby⟩ := h.queried (by rw [hs]; exact Option.some_ne_none _)
    exact ⟨b, List.mem_append_left _ hb, hby⟩
  · obtain rfl := Option.some.inj ht
    rw [hjobs] at hr
    exact h.left _ hs j r hr hwf'
  · exact ⟨_, List.mem_append_right _ (List.mem_singleton_self _), hik, hset⟩

/-- Every call of CancelWorkflow. -/
theorem CallsOff.next (hik : i = k) (ha : (callingOff wfID).allow s c)
    (hok : EndsApart wfID k tr w ⟨i, c, a⟩) :
    CallsOff wfID k (tr ++ [⟨i, c, a⟩]) w' ((callingOff wfID).next s c a) := by
  have hsame : c.spares = true → (callingOff wfID).next s c a = s → s ≠ .done →
      CallsOff wfID k (tr ++ [⟨i, c, a⟩]) w' ((callingOff wfID).next s c a) := fun hc hn hd => by
    rw [hn]
    exact h.quiet he hc hok h.here rfl (h.stored_next he)
      (fun id hs => Rules.env_stored he (h.held id hs)) fun hs => absurd hs hd
  -- a read of a job answers what is stored
  have hread : ∀ {id : String}, c = .dynamo (.getJobItem id) →
      a ≍ (Except.ok (w.store.jobs.lookup id) : Except AwsError (Option JobRecord)) ∧ w' = w := by
    intro id hc
    subst hc
    obtain ⟨rfl, rfl⟩ := Rules.env_done rfl he (hok.calm hik rfl)
    exact ⟨HEq.rfl, rfl⟩
  cases s with
  | start => exact h.find he rfl ha hok
  | found => exact h.list he hik rfl ha hok
  | walking todo =>
    cases todo with
    | nil =>
      rcases ha with rfl | ⟨now, rfl⟩
      · exact hsame rfl rfl fun hd => by cases hd
      · have hdone := h.finish he hik rfl rfl (hok.calm hik rfl)
        obtain ⟨rfl, -⟩ := Rules.env_done rfl he (hok.calm hik rfl)
        obtain ⟨wf, hwf⟩ := Option.isSome_iff_exists.mp
          (h.stored (fun hl => by cases hl) fun hl => by cases hl)
        simp only [Store.run, hwf] at hdone ⊢
        exact hdone
    | cons id todo =>
      obtain rfl : c = .dynamo (.getJobItem id) := ha
      obtain ⟨ha, hw⟩ := hread rfl
      obtain rfl : a = .ok (w.store.jobs.lookup id) := eq_of_heq ha
      cases hr : w.store.jobs.lookup id with
      | none =>
        rw [hr] at he hok
        exact h.look he rfl rfl hok hw (fun hl => by cases hl) (fun hl => by cases hl)
          (fun _ hl => by cases hl) (.inr ⟨rfl, fun r hr' => by rw [hr] at hr'; cases hr'⟩)
      | some r =>
        rw [hr] at he hok
        show CallsOff wfID k _ w' (if isTerminalState r.state then .walking todo else .holding id todo)
        split
        · rename_i hterm
          refine h.look he rfl rfl hok hw (fun hl => by cases hl) (fun hl => by cases hl)
            (fun _ hl => by cases hl) (.inr ⟨rfl, fun r' hr' => ?_⟩)
          rw [hr] at hr'
          cases hr'
          exact hterm
        · refine h.look he rfl rfl hok hw (fun hl => by cases hl) (fun hl => by cases hl)
            (fun j hj => ?_) (.inl rfl)
          cases hj
          rw [hr]
          rfl
  | holding id todo =>
    obtain rfl : c = .dynamo (.getJobItem id) := ha
    obtain ⟨r, hr⟩ := Option.isSome_iff_exists.mp (h.held id rfl)
    obtain ⟨ha, hw⟩ := hread rfl
    obtain rfl : a = .ok (w.store.jobs.lookup id) := eq_of_heq ha
    rw [hr] at he hok ⊢
    show CallsOff wfID k _ w' (if isTerminalState r.state then .walking todo else .closing id todo)
    split
    · rename_i hterm
      refine h.look he rfl rfl hok hw (fun hl => by cases hl) (fun hl => by cases hl)
        (fun _ hl => by cases hl) (.inr ⟨rfl, fun r' hr' => ?_⟩)
      rw [hr] at hr'
      cases hr'
      exact hterm
    · refine h.look he rfl rfl hok hw (fun hl => by cases hl) (fun hl => by cases hl)
        (fun j hj => ?_) (.inl rfl)
      cases hj
      rw [hr]
      rfl
  | closing id todo =>
    rcases ha with hc | rfl | ⟨us, sk, pk, rfl⟩
    · cases c with
      | dynamo d => cases d <;> first
        | cases hc
        | exact hsame rfl rfl fun hd => by cases hd
      | sqs c => exact hsame rfl rfl fun hd => by cases hd
      | proc c => exact hsame rfl rfl fun hd => by cases hd
    · obtain ⟨r, hr⟩ := Option.isSome_iff_exists.mp (h.held id rfl)
      obtain rfl : a = .ok (w.store.jobs.lookup id) := eq_of_heq (hread rfl).1
      rw [hr] at he hok hsame ⊢
      exact hsame rfl rfl fun hd => by cases hd
    · have hdone := h.cancel (i := i) he rfl rfl (hok.calm hik rfl)
      obtain rfl : a = .ok () := (Rules.env_done rfl he (hok.calm hik rfl)).1
      exact hdone
  | done => exact ha.elim
  | refused => exact ha.elim
  | lost => exact absurd rfl h.here

end

/-! ## Every run -/

section
variable [DecidableEq ι] {cfg : Config} {ρ : Rules} {wfID : String} {k : ι} {op : ι → WorkflowCall}
  {tr : List (Event ι Call Answer)} {P P' : Pool ι World Call Answer (Except Error Unit)}

/-- The workflow is cancelled, and each of its jobs is in a terminal state. -/
structure CalledOff (wfID : String) (w : World) : Prop where
  state : ∃ wf, w.store.workflows.lookup wfID = some wf ∧ wf.state = .cancelled
  jobs : ∀ id r, w.store.jobs.lookup id = some r → r.workflowID = wfID →
    isTerminalState r.state = true

/-- **Cancelled for good.** In every run that keeps CancelWorkflow apart from
the final writes and the pushes of AdvanceWorkflow, and in which it gets all of
the list and its calls, the workflow is cancelled from the moment CancelWorkflow
has returned, and no job of it is left or made. -/
theorem cancelled_workflow_stays (hk : ∀ i, op i = .cancel ↔ i = k)
    (hlisted : ∀ id r, P.world.store.jobs.lookup id = some r → r.workflowID = wfID →
      (wfID, id) ∈ P.world.store.workflowJobs)
    (hP : ∀ i, P.thread i = (op i).prog cfg wfID) (hr : Pool.Run ρ.env (EndsApart wfID k) P tr P')
    (hret : P'.Returned k (.ok ())) : CalledOff wfID P'.world := by
  have hconf : ∀ i, ((op i).monitor wfID).Conforms (P.thread i) .start := fun i => by
    rw [hP i]
    exact (op i).conforms
  have hop : op k = .cancel := (hk k).mpr rfl
  have hnil : ∀ {Q : Event ι Call Answer → Prop}, ∀ e ∈ ([] : List (Event ι Call Answer)), Q e :=
    fun _ he => absurd he List.not_mem_nil
  have h0 : CallsOff wfID k [] P.world .start :=
    ⟨fun hl => (by cases hl), hnil, fun _ id r hr hwf => .inl (hlisted id r hr hwf),
      fun hl => absurd rfl hl, fun _ hl => (by cases hl), fun hl => absurd rfl hl,
      fun _ hl => (by cases hl), fun hl => (by cases hl)⟩
  have hstep : ∀ tr w (t : ι → Calling) i c (a : Answer c) w', CallsOff wfID k tr w (t k) →
      ((op i).monitor wfID).allow (t i) c → ρ.env c w a w' → EndsApart wfID k tr w ⟨i, c, a⟩ →
      CallsOff wfID k (tr ++ [⟨i, c, a⟩]) w'
        (Monitor.track (fun i => (op i).monitor wfID) t ⟨i, c, a⟩ k) := by
    intro tr w t i c a w' hI ha he hok
    rw [Monitor.track]
    by_cases hik : i = k
    · subst hik
      rw [Function.update_self, hop]
      rw [hop] at ha
      exact hI.next he rfl ha hok
    · rw [Function.update_of_ne (Ne.symm hik)]
      cases ho : op i with
      | cancel => exact absurd ((hk i).mp ho) hik
      | advance jobID result failed =>
        rw [ho] at ha
        exact hI.other he hik ha hok
  obtain ⟨hI, hc⟩ := hr.invariant (m := fun i => (op i).monitor wfID) (s := fun _ => .start)
    (fun tr w t => CallsOff wfID k tr w (t k)) hconf h0 hstep
  have ha := Pool.accepted (hc k) hret
  rw [hop] at ha
  have hdone : Monitor.states (fun i => (op i).monitor wfID) (fun _ => .start) tr k = .done := by
    cases hs : Monitor.states (fun i => (op i).monitor wfID) (fun _ => .start) tr k with
    | done => rfl
    | lost => exact absurd hs hI.here
    | _ =>
      rw [hs] at ha
      cases ha
  rw [hdone] at hI
  exact ⟨(hI.ended rfl).2, fun id r hr hwf =>
    (hI.left [] rfl id r hr hwf).resolve_right List.not_mem_nil⟩

end

/-! ## A chain of two steps -/

instance [DecidableEq ι] (wfID : String) (k : ι) (tr : List (Event ι Call Answer)) (w : World)
    (e : Event ι Call Answer) : Decidable (EndsApart wfID k tr w e) :=
  decidable_of_iff
    ((e.thread ≠ k → setsState wfID e = true → ∀ b ∈ tr, b.thread = k → setsState wfID b = false) ∧
      ((createdFor wfID e).isSome → ∀ b ∈ tr, b.thread = k →
        b.call ≠ .dynamo (.queryWorkflowJobs wfID)) ∧
      (e.thread = k → e.call = .dynamo (.queryWorkflowJobs wfID) →
        ∀ b ∈ tr, (createdFor wfID b).all (fun id => decide (∃ f ∈ tr, AddsTo wfID id f)) = true) ∧
      (e.thread = k →
        (jobsListed e).all (fun ids => decide (w.store.jobsOf wfID ⊆ ids)) = true) ∧
      (e.thread = k → e.call.callsOff = true → callFailed e.call e.answer = false))
    (by
      simp only [Option.all_eq_true, decide_eq_true_eq]
      exact ⟨fun ⟨hs, hc, hl, hw, hf⟩ => ⟨hs, hc, hl, hw, hf⟩,
        fun h => ⟨h.state, h.creates, h.list, h.whole, h.calm⟩⟩)

/-- A running chain whose first step is completed and whose second is not
there yet. -/
def chainRecord : WorkflowRecord :=
  { id := "w1", type := "chain", state := .running, total := 2, completed := 0, failed := 0,
    jobDefs := .of [{ type := "email" }, { type := "email" }] }
def chainWorld : World :=
  { store := {
      jobs := (∅ : Table JobRecord).insert "j1" { id := "j1", state := .completed, workflowID := "w1" }
      workflows := (∅ : Table WorkflowRecord).insert "w1" chainRecord
      workflowJobs := [("w1", "j1")] } }

def cancelAndAdvance (cancels : Bool) : WorkflowCall :=
  if cancels then .cancel else .advance "j1" none false

def chainPool : Pool Bool World Call Answer (Except Error Unit) :=
  ⟨chainWorld, fun i => (cancelAndAdvance i).prog demo "w1"⟩

theorem chainWorld_listed : ∀ id r, chainWorld.store.jobs.lookup id = some r → r.workflowID = "w1" →
    ("w1", id) ∈ chainWorld.store.workflowJobs := by
  intro id r hr _
  by_cases hid : id = "j1"
  · subst hid
    exact List.mem_singleton_self _
  · rw [chainWorld, AList.lookup_insert_ne hid] at hr
    cases hr

theorem cancelAndAdvance_cancel (i : Bool) : cancelAndAdvance i = .cancel ↔ i = true := by
  cases i
  · exact ⟨fun h => (by cases h), fun h => by cases h⟩
  · exact ⟨fun _ => rfl, fun _ => rfl⟩

/-- AdvanceWorkflow reads the workflow and the job, and pushes the second step. -/
def readsChain : List Choice := [.ok, .ok]
def pushesStep : List Choice :=
  [.ok, .ok, .tick 0, .uuid "j2", .ok, .ok, .ok, .ok, .ok, .ok, .ok, .ok]

/-- The step is pushed before CancelWorkflow begins, which cancels it. -/
def pushThenCancel : List (Bool × Choice) :=
  (readsChain ++ pushesStep).map (false, ·) ++
    ([.ok, .ok, .ok, .ok, .ok, .tick 0, .ok, .ok, .ok, .ok, .tick 0, .ok] : List Choice).map (true, ·)

theorem cancelled_workflow_stays_chain : ∃ P' : Pool Bool World Call Answer (Except Error Unit),
    P'.Returned true (.ok ()) ∧ CalledOff "w1" P'.world ∧
      (P'.world.store.jobs.lookup "j2").map (·.state) = some .cancelled := by
  have hrun : ∃ out, Pool.script (Rules.act {}) (EndsApart "w1" true) [] pushThenCancel chainPool =
      some out ∧ out.2.thread true = .pure (.ok ()) ∧
      (out.2.world.store.jobs.lookup "j2").map (·.state) = some .cancelled := ⟨_, rfl, rfl, rfl⟩
  obtain ⟨⟨tr, P'⟩, hscript, hret, hjob⟩ := hrun
  have hr : Pool.Run (Rules.env {}) (EndsApart "w1" true) chainPool tr P' :=
    Pool.script_run pushThenCancel .start hscript
  exact ⟨P', hret, @cancelled_workflow_stays Bool _ demo {} "w1" true cancelAndAdvance tr chainPool P'
    cancelAndAdvance_cancel chainWorld_listed (fun _ => rfl) hr hret, hjob⟩

/-- AdvanceWorkflow has read the running workflow, and pushes the step after
CancelWorkflow has returned. -/
def readCancelPush : List (Bool × Choice) :=
  readsChain.map (false, ·) ++ ([.ok, .ok, .ok, .tick 0, .ok] : List Choice).map (true, ·) ++
    pushesStep.map (false, ·)

/-- A cancelled workflow may get one more job. -/
theorem cancelled_workflow_goes_on : ¬ ∀ (cfg : Config) (ρ : Rules) (wfID : String) (k : Bool)
    (op : Bool → WorkflowCall) (tr : List (Event Bool Call Answer))
    (P P' : Pool Bool World Call Answer (Except Error Unit)), ρ.faults = false →
    (∀ i, op i = .cancel ↔ i = k) →
    (∀ id r, P.world.store.jobs.lookup id = some r → r.workflowID = wfID →
      (wfID, id) ∈ P.world.store.workflowJobs) →
    (∀ i, P.thread i = (op i).prog cfg wfID) → Pool.Run ρ.env Pool.anyStep P tr P' →
    P'.Returned k (.ok ()) → CalledOff wfID P'.world := by
  intro hall
  have hrun : ∃ out r, Pool.script (Rules.act {}) Pool.anyStep [] readCancelPush chainPool = some out ∧
      out.2.thread true = .pure (.ok ()) ∧ out.2.world.store.jobs.lookup "j2" = some r ∧
      r.workflowID = "w1" ∧ r.state = .available := ⟨_, _, rfl, rfl, rfl, rfl, rfl⟩
  obtain ⟨⟨tr, P'⟩, r, hscript, hret, hjob, hwf, hstate⟩ := hrun
  have hoff := hall demo {} "w1" true cancelAndAdvance tr chainPool P' rfl cancelAndAdvance_cancel
    chainWorld_listed (fun _ => rfl) (Pool.script_run readCancelPush .start hscript) hret
  have hterm := hoff.jobs "j2" r hjob hwf
  rw [hstate] at hterm
  cases hterm

end OjsSqs
