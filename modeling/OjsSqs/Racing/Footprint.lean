import OjsSqs.Atomic.Rules

/-! # What a call may touch

Next to other programs a program is known by its calls alone. A table that a
call does not write is the same after it, whatever the environment chose. The
helpers of the backend are summed up by the kinds of calls they make, and the
part of a Push that stores the new job by a monitor of its own, which the
monitors of larger programs contain. -/
namespace OjsSqs
open Calls

namespace Call

/-- The job record a call writes. -/
def writesJob : Call → Option String
  | .dynamo (.putJobItem r) => some r.id
  | .dynamo (.updateJobItem id _ _ _ _) => some id
  | _ => none

/-- The record a call puts. -/
def putRecord : Call → Option JobRecord
  | .dynamo (.putJobItem record) => some record
  | _ => none

/-- The unique key a call takes. -/
def takesKey : Call → Option String
  | .dynamo (.putUniqueItem fp _ _) => some fp
  | _ => none

/-- The workflow a call writes. -/
def writesWorkflow : Call → Option String
  | .dynamo (.putWorkflowItem wf) => some wf.id
  | .dynamo (.updateWorkflowItem id _) => some id
  | _ => none

/-- A request to SQS, or a step of the process that makes no identifier. -/
def isAside : Call → Bool
  | .dynamo _ | .proc .newUUIDv7 => false
  | _ => true

end Call

/-! ## Frames -/

/-- A request to the store is answered by `run`, or it changes nothing. -/
theorem Store.act_cases {ch : Choice} {c : DynamoCall} {s s' : Store}
    {r : Except AwsError c.Answer} (h : s.act ch c = some (r, s')) :
    (r, s') = s.run c ∨ s' = s := by
  cases ch <;> cases c <;> simp only [Store.act, reduceCtorEq, Option.some.injEq] at h <;>
    first
    | exact .inl h.symm
    | exact .inr (Prod.mk.inj h).2.symm
    | (obtain ⟨-, he⟩ := Option.ite_none_right_eq_some.mp h; cases he; exact .inr rfl)

section
variable {ρ : Rules} {w w' : World}

/-- SQS and the process leave the store alone. -/
theorem Rules.env_aside {c : Call} {r : Answer c} (hc : ∀ d, c ≠ .dynamo d)
    (h : ρ.env c w r w') : w'.store = w.store := by
  cases c with
  | dynamo d => exact absurd rfl (hc d)
  | sqs c =>
    obtain ⟨ch, q, -, -, rfl⟩ := Rules.env_sqs h
    rfl
  | proc c =>
    obtain ⟨ch, -, he⟩ := Rules.env_proc h
    cases ch <;> cases c <;> simp only [World.actProc, reduceCtorEq] at he <;>
      first
      | (obtain ⟨-, he⟩ := Option.ite_none_right_eq_some.mp he; cases he; rfl)
      | (cases he; rfl)

theorem Rules.env_proc_store {c : ProcCall} {r : c.Answer} (h : ρ.env (.proc c) w r w') :
    w'.store = w.store :=
  Rules.env_aside (fun _ hd => by cases hd) h

/-- A step of the process leaves SQS alone. -/
theorem Rules.env_proc_sqs {c : ProcCall} {r : c.Answer} (h : ρ.env (.proc c) w r w') :
    w'.sqs = w.sqs := by
  obtain ⟨ch, -, he⟩ := Rules.env_proc h
  cases ch <;> cases c <;> simp only [World.actProc, reduceCtorEq] at he <;>
    first
    | (obtain ⟨-, he⟩ := Option.ite_none_right_eq_some.mp he; cases he; rfl)
    | (cases he; rfl)

/-- What no request of the store changes but the ones that `P` excludes. -/
theorem Rules.env_frame {β : Type} (f : Store → β) {c : Call} {r : Answer c}
    (hf : ∀ d, c = .dynamo d → f (w.store.run d).2 = f w.store) (h : ρ.env c w r w') :
    f w'.store = f w.store := by
  cases c with
  | dynamo d =>
    obtain ⟨ch, s', -, he, rfl⟩ := Rules.env_dynamo h
    rcases Store.act_cases he with hr | rfl
    · rw [← hf d rfl, ← hr]
      rfl
    · rfl
  | sqs c => rw [Rules.env_aside (fun _ hd => by cases hd) h]
  | proc c => rw [Rules.env_aside (fun _ hd => by cases hd) h]

/-- A record that a call does not write. -/
theorem Rules.env_job {c : Call} {r : Answer c} {id : String} (hc : c.writesJob ≠ some id)
    (h : ρ.env c w r w') : w'.store.jobs.lookup id = w.store.jobs.lookup id := by
  refine Rules.env_frame (fun s => s.jobs.lookup id) (fun d hd => ?_) h
  subst hd
  cases d <;> simp only [Store.run] <;> (try split) <;>
    first
    | rfl
    | exact AList.lookup_insert_ne fun hid => hc (by rw [hid]; rfl)

/-- A unique key that a call does not take. -/
theorem Rules.env_uniqueKey {c : Call} {r : Answer c} {fp : String} (hc : c.takesKey ≠ some fp)
    (h : ρ.env c w r w') : w'.store.uniqueKeys.lookup fp = w.store.uniqueKeys.lookup fp := by
  refine Rules.env_frame (fun s => s.uniqueKeys.lookup fp) (fun d hd => ?_) h
  subst hd
  cases d <;> simp only [Store.run] <;> (try split) <;>
    first
    | rfl
    | exact AList.lookup_insert_ne fun hid => hc (by rw [hid]; rfl)

/-- A workflow that a call does not write. -/
theorem Rules.env_workflow {c : Call} {r : Answer c} {id : String}
    (hc : c.writesWorkflow ≠ some id) (h : ρ.env c w r w') :
    w'.store.workflows.lookup id = w.store.workflows.lookup id := by
  refine Rules.env_frame (fun s => s.workflows.lookup id) (fun d hd => ?_) h
  subst hd
  cases d <;> simp only [Store.run] <;> (try split) <;>
    first
    | rfl
    | exact AList.lookup_insert_ne fun hid => hc (by rw [hid]; rfl)

/-- The table of the workflows, when a call writes none. -/
theorem Rules.env_workflowTable {c : Call} {r : Answer c} (hc : c.writesWorkflow = none)
    (h : ρ.env c w r w') : w'.store.workflows = w.store.workflows := by
  refine Rules.env_frame (fun s => s.workflows) (fun d hd => ?_) h
  subst hd
  cases d <;> first | rfl | (cases hc; done) | (simp only [Store.run]; split <;> rfl)

/-- A request that succeeds has been carried out. -/
theorem Rules.env_ok {c : DynamoCall} (hc : c.isPaged = false) {a : c.Answer}
    (h : ρ.env (.dynamo c) w (Except.ok a : Except AwsError c.Answer) w') :
    (.ok a, w'.store) = w.store.run c := by
  obtain ⟨ch, s', -, he, rfl⟩ := Rules.env_dynamo h
  cases ch <;> cases c <;> first | (cases hc; done) | (cases he; done) | exact (Option.some.inj he).symm

/-- The clock does not go back. -/
theorem Rules.env_clock {c : Call} {r : Answer c} (h : ρ.env c w r w') : w.clock ≤ w'.clock := by
  cases c with
  | dynamo d =>
    obtain ⟨_, _, _, _, rfl⟩ := Rules.env_dynamo h
    exact le_refl _
  | sqs c =>
    obtain ⟨_, _, _, _, rfl⟩ := Rules.env_sqs h
    exact le_refl _
  | proc c =>
    obtain ⟨ch, -, he⟩ := Rules.env_proc h
    cases ch <;> cases c <;> simp only [World.actProc, reduceCtorEq] at he <;>
      first
      | (cases he; exact le_refl _)
      | (obtain ⟨hle, he⟩ := Option.ite_none_right_eq_some.mp he; cases he
         first | exact hle | exact le_refl _)

/-- Nor does it advance when no time passes in an operation. -/
theorem Rules.env_shows {c : Call} {r : Answer c} (h : ρ.env c w r w') :
    ρ.mayShow w w'.clock := by
  refine ⟨Rules.env_clock h, fun hp => ?_⟩
  cases c with
  | dynamo d =>
    obtain ⟨_, _, _, _, rfl⟩ := Rules.env_dynamo h
    rfl
  | sqs c =>
    obtain ⟨_, _, _, _, rfl⟩ := Rules.env_sqs h
    rfl
  | proc c =>
    obtain ⟨ch, ha, he⟩ := Rules.env_proc h
    cases ch <;> cases c <;> simp only [World.actProc, reduceCtorEq] at he <;>
      first
      | (cases he; rfl)
      | (obtain ⟨-, he⟩ := Option.ite_none_right_eq_some.mp he; cases he
         first | rfl | simpa [Rules.admits, hp] using ha)

/-- A stored job stays stored. -/
theorem Rules.env_stored {c : Call} {r : Answer c} {id : String} (h : ρ.env c w r w')
    (hs : (w.store.jobs.lookup id).isSome) : (w'.store.jobs.lookup id).isSome := by
  by_cases hc : c.writesJob = some id
  · cases c with
    | dynamo d =>
      obtain ⟨ch, s', -, he, rfl⟩ := Rules.env_dynamo h
      rcases Store.act_cases he with hr | rfl
      · have hs' : s' = (w.store.run d).2 := congrArg Prod.snd hr
        cases d <;> cases hc <;> rw [hs'] <;> simp [World.setStore, Store.run]
      · exact hs
    | sqs c => cases hc
    | proc c => cases hc
  · rw [Rules.env_job hc h]
    exact hs

theorem runs_stored {α : Type} {p : M α} {a : α} {id : String} (h : Runs ρ.env p w a w')
    (hs : (w.store.jobs.lookup id).isSome) : (w'.store.jobs.lookup id).isSome := by
  induction h with
  | pure => exact hs
  | call he _ ih => exact ih (Rules.env_stored he hs)

/-- A call that writes no record, and one that writes no workflow. -/
theorem Rules.env_jobs {c : Call} {r : Answer c} (hc : c.writesJob = none) (h : ρ.env c w r w')
    (id : String) : w'.store.jobs.lookup id = w.store.jobs.lookup id :=
  Rules.env_job (hc.trans_ne nofun) h

theorem Rules.env_workflows {c : Call} {r : Answer c} (hc : c.writesWorkflow = none)
    (h : ρ.env c w r w') (id : String) :
    w'.store.workflows.lookup id = w.store.workflows.lookup id :=
  Rules.env_workflow (hc.trans_ne nofun) h

/-- Without faults a request is answered by `run`. -/
theorem Rules.env_run (hρ : ρ.faults = false) {c : DynamoCall} (hc : c.isQuery = false)
    {r : Except AwsError c.Answer} (h : ρ.env (.dynamo c) w r w') :
    r = (w.store.run c).1 ∧ w' = w.setStore (w.store.run c).2 := by
  have hw := (wp_dynamo hρ hc fun r w' =>
    r = (w.store.run c).1 ∧ w' = w.setStore (w.store.run c).2).mpr ⟨rfl, rfl⟩
  exact hw r w' h

/-- A new identifier is not the one of a stored job. -/
theorem Rules.env_newUUIDv7 {id : String} (h : ρ.env (.proc .newUUIDv7) w id w') :
    w.store.jobs.lookup id = none :=
  wp_newUUIDv7 (Q := fun id _ => w.store.jobs.lookup id = none) (fun _ _ hn _ => hn) id w' h

end

/-! ## The calls of the helpers -/

section
variable (cfg : Config) {P : Call → Prop}

theorem only_request {context : String} {c : DynamoCall} (h : P (.dynamo c)) :
    (request context c).Only P := by
  refine Prog.only_bind (Prog.only_perform h) fun a => ?_
  split <;> exact Prog.only_pure _

theorem only_getJob {id : String} (h : P (.dynamo (.getJobItem id))) : (getJob id).Only P := by
  refine Prog.only_bind (Prog.only_perform h) fun a => ?_
  split <;> exact Prog.only_pure _

theorem only_updateJobState {id : String} {s : JobState} {us : List JobUpdate}
    (h : P (.dynamo (.getJobItem id)))
    (hu : ∀ r : JobRecord, P (.dynamo (.updateJobItem id s us (gsi1skOf s r.createdAt) (gsi2pkOf s)))) :
    (updateJobState id s us).Only P := by
  refine Prog.only_bind (only_getJob h) fun a => ?_
  split
  · exact Prog.only_pure _
  · exact only_request (hu _)

theorem only_registerQueue {name : String} (h : P (.dynamo (.putQueueItem name))) :
    (registerQueue name).Only P := by
  refine Prog.only_bind (Prog.only_perform h) fun a => ?_
  split <;> exact Prog.only_pure _

theorem only_timeNow : timeNow.Only (·.isAside) := Prog.only_perform rfl

theorem only_nowFormatted : (nowFormatted cfg).Only (·.isAside) :=
  Prog.only_bind only_timeNow fun _ => Prog.only_pure _

theorem only_queueURL (queue : String) (hl : P (.proc (.lookupURL queue)))
    (hc : ∀ name, P (.sqs (.createQueue name))) (hg : ∀ url, P (.proc (.goEnsureDLQ queue url)))
    (hm : ∀ url, P (.proc (.cacheURL queue url))) : (getOrCreateQueueURL cfg queue).Only P := by
  refine Prog.only_bind (Prog.only_perform hl) fun a => ?_
  split
  · exact Prog.only_pure _
  · refine Prog.only_bind (Prog.only_perform (hc _)) fun a => ?_
    split
    · exact Prog.only_pure _
    · refine Prog.only_bind (Prog.only_perform (hg _)) fun _ => ?_
      exact Prog.only_bind (Prog.only_perform (hm _)) fun _ => Prog.only_pure _

theorem only_getOrCreateQueueURL (queue : String) :
    (getOrCreateQueueURL cfg queue).Only (·.isAside) :=
  only_queueURL cfg queue rfl (fun _ => rfl) (fun _ => rfl) fun _ => rfl

theorem sendToSQS_calls {job : Job} (hopen : (getOrCreateQueueURL cfg job.queue).Only P)
    (hsend : ∀ url, P (.sqs (.sendMessage url (outMessage cfg job job)))) :
    (sendToSQS cfg job).Only P := by
  refine Prog.only_bind hopen fun a => ?_
  split
  · exact Prog.only_pure _
  · cases he : encodeJob cfg job with
    | error e => exact Prog.only_pure _
    | ok body =>
      obtain rfl := encodeJob_body he
      refine Prog.only_bind (Prog.only_perform (hsend _)) fun a => ?_
      split <;> exact Prog.only_pure _

theorem only_sendToSQS (job : Job) : (sendToSQS cfg job).Only (·.isAside) :=
  sendToSQS_calls cfg (only_getOrCreateQueueURL cfg _) fun _ => rfl

/-- The new job is stored first, and then marked or sent. -/
theorem pushNew_stores (now : Time) (job : Job)
    (hdue : ∀ ms, P (.dynamo (.putDueItem .scheduled job.id ms)))
    (hregister : P (.dynamo (.putQueueItem job.queue)))
    (hopen : (getOrCreateQueueURL cfg job.queue).Only P)
    (hsend : ∀ s t url, P (.sqs (.sendMessage url (outMessage cfg
      { job with state := s, enqueuedAt := t } { job with state := s, enqueuedAt := t })))) :
    ∃ s t rest, (s = .available ∨ s = .scheduled) ∧
      pushNew cfg now job = putJob (jobToRecord { job with state := s, enqueuedAt := t }) >>= rest ∧
      (∀ e, ∃ e', rest (.error e) = return .error e') ∧ ∀ a, (rest a).Only P := by
  rw [pushNew]
  split
  · refine ⟨_, _, _, .inr rfl, rfl, fun e => ⟨_, rfl⟩, fun a => ?_⟩
    split
    · exact Prog.only_pure _
    · refine Prog.only_bind (only_request (hdue _)) fun a => ?_
      split
      · exact Prog.only_pure _
      · refine Prog.only_bind (only_registerQueue hregister) fun a => ?_
        split <;> exact Prog.only_pure _
  · refine ⟨_, _, _, .inl rfl, rfl, fun e => ⟨_, rfl⟩, fun a => ?_⟩
    split
    · exact Prog.only_pure _
    · refine Prog.only_bind (only_registerQueue hregister) fun a => ?_
      split
      · exact Prog.only_pure _
      · refine Prog.only_bind (sendToSQS_calls cfg hopen (hsend _ _)) fun a => ?_
        split <;> exact Prog.only_pure _

theorem pushNew_calls (now : Time) (job : Job)
    (hput : ∀ s t, s = .available ∨ s = .scheduled →
      P (.dynamo (.putJobItem (jobToRecord { job with state := s, enqueuedAt := t }))))
    (hdue : ∀ ms, P (.dynamo (.putDueItem .scheduled job.id ms)))
    (hregister : P (.dynamo (.putQueueItem job.queue)))
    (hopen : (getOrCreateQueueURL cfg job.queue).Only P)
    (hsend : ∀ s t url, P (.sqs (.sendMessage url (outMessage cfg
      { job with state := s, enqueuedAt := t } { job with state := s, enqueuedAt := t })))) :
    (pushNew cfg now job).Only P := by
  obtain ⟨s, t, rest, hs, he, -, hrest⟩ := pushNew_stores cfg now job hdue hregister hopen hsend
  rw [he]
  exact Prog.only_bind (only_request (hput s t hs)) hrest

/-- One request of SQS to the message a stored handle names, with its queue
resolved first. -/
theorem only_dropMessage (r : JobRecord) : (dropMessage cfg r).Only (·.isAside) := by
  rw [dropMessage]
  split
  · exact Prog.only_pure _
  · refine Prog.only_bind (only_getOrCreateQueueURL cfg _) fun a => ?_
    split
    · exact Prog.only_pure _
    · exact Prog.only_bind (Prog.only_perform rfl) fun _ => Prog.only_pure _

theorem only_deleteMessageOf (r : JobRecord) (step did : String) :
    (deleteMessageOf cfg r step did).Only (·.isAside) := by
  rw [deleteMessageOf]
  split
  · exact Prog.only_pure _
  · refine Prog.only_bind (only_getOrCreateQueueURL cfg _) fun a => ?_
    split
    · exact Prog.only_pure _
    · refine Prog.only_bind (Prog.only_perform rfl) fun a => ?_
      split <;> exact Prog.only_pure _

end

/-! ## Storing a new job -/

/-- The calls that store the job `id`: its record, its marker and its queue,
and what it takes to send it. -/
def Call.stores (id : String) : Call → Prop
  | .dynamo (.putJobItem r) => r.id = id
  | .dynamo (.putQueueItem _) | .dynamo (.putDueItem _ _ _) => True
  | c => c.isAside

theorem Call.stores_of_isAside {c : Call} (id : String) (h : c.isAside) : c.stores id := by
  cases c with
  | dynamo c => cases h
  | sqs c => exact h
  | proc c => exact h

/-- Follows the storing of the job `id`: whether its record has been written.
A job that is returned has been. -/
def storing (id : String) : Monitor Bool Call Answer (Except Error Job) where
  allow _ c := c.stores id
  next
    | _, .dynamo (.putJobItem _), .ok _ => true
    | b, _, _ => b
  accept a b := ∀ j, a = .ok j → b = true ∧ j.id = id

theorem storing_error {id : String} (e : Error) (b : Bool) : (storing id).accept (.error e) b :=
  fun _ h => by cases h

theorem storing_next_of_ne {id : String} {c : Call} (b : Bool) (r : Answer c)
    (h : ∀ x, c ≠ .dynamo (.putJobItem x)) : (storing id).next b c r = b := by
  cases c with
  | dynamo d => cases d <;> first | rfl | exact absurd rfl (h _)
  | sqs c => rfl
  | proc c => rfl

section
variable (cfg : Config)

/-- A stretch of storing that does not write the record. -/
theorem storing_only {id : String} {β : Type} {p : M β} {b : Bool} {Q : β → Bool → Prop}
    (hp : p.Only fun c => c.stores id ∧ ∀ x, c ≠ .dynamo (.putJobItem x)) (hQ : ∀ a, Q a b) :
    wp (storing id).effect p Q b :=
  Monitor.wp_only hp (fun _ hc => ⟨hc.1, fun r => storing_next_of_ne b r hc.2⟩) hQ

theorem storing_aside {id : String} {β : Type} {p : M β} {b : Bool} {Q : β → Bool → Prop}
    (hp : p.Only (·.isAside)) (hQ : ∀ a, Q a b) : wp (storing id).effect p Q b :=
  storing_only (hp.mono fun _ hc => ⟨Call.stores_of_isAside id hc, fun x hx => by subst hx; cases hc⟩)
    hQ

theorem storing_putJob {r : JobRecord} {Q : Except Error Unit → Bool → Prop}
    (hok : Q (.ok ()) true) (herr : ∀ e b, Q (.error e) b) :
    wp (storing r.id).effect (putJob r) Q false := by
  refine ⟨rfl, fun a => ?_⟩
  cases a with
  | error e => exact herr _ _
  | ok u => exact hok

theorem storing_registerQueue {id name : String} {b : Bool} {Q : Except Error Unit → Bool → Prop}
    (hQ : ∀ a, Q a b) : wp (storing id).effect (registerQueue name) Q b :=
  storing_only (only_registerQueue ⟨trivial, fun _ h => by cases h⟩) hQ

theorem storing_pushScheduled (now t : Time) (job : Job) :
    (storing job.id).Conforms (pushScheduled cfg now t job) false := by
  rw [Monitor.Conforms, pushScheduled, wp_bind]
  refine storing_putJob (r := jobToRecord _) ?_ fun e b => storing_error _ _
  simp only
  rw [wp_bind]
  refine storing_only (only_request ⟨trivial, fun _ h => by cases h⟩) fun a => ?_
  split
  · exact storing_error _ _
  · rw [wp_bind]
    refine storing_registerQueue fun a => ?_
    split
    · exact storing_error _ _
    · rintro _ ⟨⟩
      exact ⟨rfl, rfl⟩

theorem storing_pushAvailable (now : Time) (job : Job) :
    (storing job.id).Conforms (pushAvailable cfg now job) false := by
  rw [Monitor.Conforms, pushAvailable, wp_bind]
  refine storing_putJob (r := jobToRecord _) ?_ fun e b => storing_error _ _
  simp only
  rw [wp_bind]
  refine storing_registerQueue fun a => ?_
  split
  · exact storing_error _ _
  · rw [wp_bind]
    refine storing_aside (only_sendToSQS cfg _) fun a => ?_
    split
    · exact storing_error _ _
    · rintro _ ⟨⟩
      exact ⟨rfl, rfl⟩

/-- The part of a Push that stores the job writes no record but the job's. -/
theorem storing_pushNew (now : Time) (job : Job) :
    (storing job.id).Conforms (pushNew cfg now job) false := by
  rw [pushNew]
  split
  · exact storing_pushScheduled cfg now _ job
  · exact storing_pushAvailable cfg now job

end

end OjsSqs
