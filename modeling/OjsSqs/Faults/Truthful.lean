import OjsSqs.Atomic.Steps
import OjsSqs.Faults.Notes
import OjsSqs.Faults.Promote
import OjsSqs.Lifecycle.Invariant
import OjsSqs.Racing.Ordinary

/-! # Replies of success

Cancel, CancelWorkflow and RetryDeadLetter drop the errors of most of their
calls and report success. A ghost keeps what these calls left undone; with the
state before it decides whether the reply is true. The list of a workflow's
jobs is one query, which may stop after its first page, and a FIFO queue may
drop a message as a repeat. -/
namespace OjsSqs
open Calls

/-- What a call leaves undone. -/
inductive Part where
  /-- the record of a job is read or written -/
  | job (id : String)
  | marker (index : DueIndex) (id : String)
  | deadLetter (id : String)
  | workflow (id : String)
  /-- a job is listed among those of its workflow -/
  | listing (jobID : String)
  /-- a queue is opened, or a message is sent -/
  | sending
deriving DecidableEq

def Call.part : Call → Option Part
  | .dynamo (.getJobItem id) | .dynamo (.updateJobItem id _ _ _ _) => some (.job id)
  | .dynamo (.deleteDueItem i id) => some (.marker i id)
  | .dynamo (.deleteDeadLetterItem id) => some (.deadLetter id)
  | .dynamo (.updateWorkflowItem id _) => some (.workflow id)
  | .sqs (.createQueue _) | .sqs (.sendMessage _ _) => some .sending
  | _ => none

/-- The jobs of a workflow that an answer leaves out: all of them when the query
has failed. -/
def Store.unlisted (wfID : String) (r : Except AwsError (List String)) (s : Store) : List String :=
  (s.jobsOf wfID).filter fun id => id ∉ r.toOption.getD []

/-- Keeps the parts that were left undone. -/
def noteParts : Note World Call Answer (List Part)
  | .dynamo (.queryWorkflowJobs wfID), r, w, _, failed =>
    (w.store.unlisted wfID r).map .listing ++ failed
  | c, r, _, _, failed => if callFailed c r then c.part.toList ++ failed else failed

/-- The calls of the operations, with what is noted of them. -/
def Rules.noting (ρ : Rules) : Env ((World × Fifo) × List Part) Call Answer :=
  ρ.fifo.withGhost noteParts.beside

/-! ## Methods that may fail -/

/-- The query for the jobs of a workflow. -/
def Call.lists : Call → Bool
  | .dynamo (.queryWorkflowJobs _) => true
  | _ => false

section
variable {cfg : Config} {ρ : Rules} {w : World} {F : Fifo} {failed : List Part} {id : String}

theorem parts_notes (failed : List Part) : Notes noteParts (·.lists = false) (· = failed)
    fun c g => g = c.part.toList ++ failed := by
  have hnote : ∀ {c : Call} {r : Answer c} {w w' : World} {g : List Part}, c.lists = false →
      noteParts c r w w' g = if callFailed c r then c.part.toList ++ g else g := by
    intro c r w w' g hc
    cases c with
    | dynamo d => cases d <;> first | rfl | cases hc
    | _ => rfl
  refine ⟨fun hc hf hg => ?_, fun hc hf hg => ?_⟩ <;> subst hg <;> rw [hnote hc, hf] <;> rfl

/-- What sends nothing is the same in front of FIFO queues. -/
theorem wp_noting {α : Type} {p : M α} {Q : α → (World × Fifo) × List Part → Prop}
    (hp : p.Only (·.isSend = false))
    (h : wp (ρ.env.withGhost noteParts).every p (fun a x => Q a ((x.1, F), x.2)) (w, failed)) :
    wp ρ.noting.every p Q ((w, F), failed) :=
  wp_ghost_filter hp (fun _ a w w' F hc => deduplicate_of_not_send hc a w w' F) h

/-- A method of one request that succeeds when it is carried out. -/
theorem wp_parts_request {context : String} {c : DynamoCall} (hc : c.isPaged = false) {a : c.Answer}
    (hrun : (w.store.run c).1 = .ok a) {Q : Except Error c.Answer → (World × Fifo) × List Part → Prop}
    (hfail : ∀ e, Q (.error e) ((w, F), (Call.dynamo c).part.toList ++ failed))
    (hok : Q (.ok a) ((w.setStore (w.store.run c).2, F), failed)) :
    wp ρ.noting.every (request context c) Q ((w, F), failed) := by
  have hlists : (Call.dynamo c).lists = false := by
    cases c <;> first | rfl | cases hc
  refine wp_noting (only_request rfl) ?_
  exact (parts_notes failed).request rfl hc hlists hrun (fun e _ hg => hg ▸ hfail e) fun _ hg => hg ▸ hok

theorem wp_parts_getJob {Q : Except Error JobRecord → (World × Fifo) × List Part → Prop}
    (hfail : ∀ e, Q (.error e) ((w, F), .job id :: failed))
    (hnone : w.store.jobs.lookup id = none → ∀ e, Q (.error e) ((w, F), failed))
    (hsome : ∀ r, w.store.jobs.lookup id = some r → Q (.ok r) ((w, F), failed)) :
    wp ρ.noting.every (getJob id) Q ((w, F), failed) := by
  refine wp_noting (only_getJob rfl) ?_
  exact (parts_notes failed).getJob rfl rfl (fun e _ hg => hg ▸ hfail e)
    (fun e _ hr hg => hg ▸ hnone hr e) fun r _ hr hg => hg ▸ hsome r hr

/-- The list of a workflow's jobs: some of them, and a note of the others. -/
theorem wp_parts_getWorkflowJobs {wfID : String} (hnd : (w.store.jobsOf wfID).Nodup)
    {Q : Except Error (List String) → (World × Fifo) × List Part → Prop}
    (h : ∀ a : Except Error (List String), (a.toOption.getD []).Nodup →
      (∀ id ∈ a.toOption.getD [], id ∈ w.store.jobsOf wfID) →
      Q a ((w, F), ((w.store.jobsOf wfID).filter fun id => id ∉ a.toOption.getD []).map .listing ++ failed)) :
    wp ρ.noting.every (getWorkflowJobs wfID) Q ((w, F), failed) := by
  refine wp_noting (only_request rfl) ?_
  rw [getWorkflowJobs, request, wp_bind]
  refine wp_ghost_every fun r w' he => ?_
  obtain ⟨rfl, hids⟩ := Rules.env_queryWorkflowJobs he
  cases r with
  | error e =>
    have hnone : ∀ id ∈ ([] : List String), id ∈ w'.store.jobsOf wfID := fun _ hid =>
      absurd hid List.not_mem_nil
    exact h (.error (OjsSqs.failed "failed to get workflow jobs" e)) List.nodup_nil hnone
  | ok ids =>
    obtain ⟨hin, hone⟩ := hids ids rfl
    exact h (.ok ids) (hone hnd) hin

theorem wp_parts_updateJobState {r : JobRecord} (hr : w.store.jobs.lookup id = some r) {s : JobState}
    {us : List JobUpdate} {Q : Except Error Unit → (World × Fifo) × List Part → Prop}
    (hfail : ∀ e, Q (.error e) ((w, F), .job id :: failed))
    (hok : Q (.ok ()) ((w.setJob id (r.moved s us), F), failed)) :
    wp ρ.noting.every (updateJobState id s us) Q ((w, F), failed) := by
  rw [updateJobState, wp_bind]
  refine wp_parts_getJob (fun e => hfail _) (fun hn e => ?_) fun r' hr' => ?_
  · rw [hn] at hr
    cases hr
  · obtain rfl := Option.some.inj (hr'.symm.trans hr)
    refine wp_parts_request rfl rfl hfail ?_
    rw [World.setJob] at hok
    simp only [Store.run, hr, Option.getD_some]
    exact hok

theorem wp_parts_now {Q : Time → (World × Fifo) × List Part → Prop}
    (h : ∀ t, ρ.mayShow w t → Q t ((w.setClock t, F), failed)) :
    wp ρ.noting.every timeNow Q ((w, F), failed) :=
  wp_noting (Prog.only_perform rfl) (wp_ghost (wp_timeNow h))

theorem wp_parts_nowFormatted {Q : String → (World × Fifo) × List Part → Prop}
    (h : ∀ t, ρ.mayShow w t → Q (cfg.formatTime t) ((w.setClock t, F), failed)) :
    wp ρ.noting.every (nowFormatted cfg) Q ((w, F), failed) := by
  rw [nowFormatted, wp_bind]
  exact wp_parts_now h

/-- The helpers that talk to SQS leave the store alone. -/
theorem wp_parts_aside {α : Type} {p : M α} (hp : p.Only (·.isAside))
    {Q : α → (World × Fifo) × List Part → Prop}
    (h : ∀ a w' F' failed', w'.store = w.store → (∀ x, x ≠ .sending → (x ∈ failed' ↔ x ∈ failed)) →
      Q a ((w', F'), failed')) :
    wp ρ.noting.every p Q ((w, F), failed) := by
  have hkeep : wp ρ.noting.every p (fun _ x => x.1.1.store = w.store ∧
      ∀ y, y ≠ Part.sending → (y ∈ x.2 ↔ y ∈ failed)) ((w, F), failed) := by
    refine hp.keeps (fun x : (World × Fifo) × List Part => x.1.1.store = w.store ∧
      ∀ y, y ≠ Part.sending → (y ∈ x.2 ↔ y ∈ failed)) (fun c x r x' hc hx he => ⟨?_, ?_⟩)
      ⟨rfl, fun _ _ => Iff.rfl⟩
    · exact (Rules.fifo_aside (fun d hd => by rw [hd] at hc; cases hc) he.1).trans hx.1
    · intro y hy
      have hpart : ∀ z, c.part = some z → z = .sending := by
        intro z hz
        cases c with
        | dynamo d => cases hc
        | sqs c => cases c <;> cases hz <;> rfl
        | proc c => cases hz
      have hnote : x'.2 = if callFailed c r then c.part.toList ++ x.2 else x.2 := by
        rw [he.2]
        cases c with
        | dynamo d => cases hc
        | _ => rfl
      rw [hnote]
      split
      · rw [List.mem_append, hx.2 y hy]
        refine or_iff_right fun hin => hy (hpart y ?_)
        exact Option.mem_toList.mp hin
      · exact hx.2 y hy
  exact wp_mono (Env.every_mono _) p hkeep fun a x hx => h a x.1.1 x.1.2 x.2 hx.1 hx.2

end

/-! ## Cancel -/

/-- The parts that a Cancel of the job may leave undone. -/
def Part.ofCancel (id : String) : Part → Bool
  | .job i | .marker _ i => i = id
  | .sending => true
  | _ => false

/-- What a Cancel of the job leaves alone, and what it does to the record: it is
cancelled, or a read or write of it has failed. -/
structure Cancels (id : String) (w : World) (failed : List Part) (w' : World)
    (failed' : List Part) : Prop where
  others : ∀ i, i ≠ id ∨ w.store.jobs.lookup i = none →
    w'.store.jobs.lookup i = w.store.jobs.lookup i
  workflows : w'.store.workflows = w.store.workflows
  listed : w'.store.workflowJobs = w.store.workflowJobs
  parts : ∀ x : Part, x.ofCancel id = false → (x ∈ failed' ↔ x ∈ failed)
  undone : ∀ r, w.store.jobs.lookup id = some r →
    isTerminalState r.state = true ∨ .job id ∈ failed' → w'.store.jobs.lookup id = some r
  done : ∀ r, w.store.jobs.lookup id = some r → isTerminalState r.state = false →
    .job id ∉ failed' → ∃ r', w'.store.jobs.lookup id = some r' ∧ r'.state = .cancelled

/-- The marker is gone, or its removal has failed. -/
structure RemovesMarkers (id : String) (w : World) (w' : World) (failed' : List Part) : Prop where
  undone : ∀ i, .marker i id ∈ failed' → (w'.store.due i).lookup id = (w.store.due i).lookup id
  done : ∀ i, .marker i id ∉ failed' → (w'.store.due i).lookup id = none

section
variable {cfg : Config} {ρ : Rules} {w : World} {F : Fifo} {failed : List Part} {id : String}

/-- One of the two removals. -/
theorem wp_parts_removeDueJob {i : DueIndex} {Q : Except Error Unit → (World × Fifo) × List Part → Prop}
    (hfail : ∀ e, Q (.error e) ((w, F), .marker i id :: failed))
    (hok : Q (.ok ()) ((w.removeDue i id, F), failed)) :
    wp ρ.noting.every (removeDueJob i id) Q ((w, F), failed) :=
  wp_parts_request rfl rfl hfail hok

/-- One more part of the Cancel has failed. -/
theorem mem_cons_of_ofCancel {x y : Part} {failed' : List Part} (hy : y.ofCancel id = true)
    (hx : x.ofCancel id = false) : x ∈ y :: failed' ↔ x ∈ failed' := by
  rw [List.mem_cons]
  refine or_iff_right fun he => ?_
  rw [he, hy] at hx
  cases hx

/-- In a Cancel of the job, after the markers of some indexes were removed. -/
structure Clearing (id : String) (w : World) (failed : List Part) (cleared : List DueIndex)
    (w' : World) (failed' : List Part) : Prop where
  jobs : w'.store.jobs = w.store.jobs
  workflows : w'.store.workflows = w.store.workflows
  listed : w'.store.workflowJobs = w.store.workflowJobs
  parts : ∀ x : Part, x.ofCancel id = false → (x ∈ failed' ↔ x ∈ failed)
  job : .job id ∈ failed' ↔ .job id ∈ failed
  waiting : ∀ i, i ∉ cleared → (w'.store.due i).lookup id = (w.store.due i).lookup id ∧
    (.marker i id ∈ failed' ↔ .marker i id ∈ failed)
  undone : ∀ i, .marker i id ∉ failed → .marker i id ∈ failed' →
    (w'.store.due i).lookup id = (w.store.due i).lookup id
  done : ∀ i, i ∈ cleared → .marker i id ∉ failed' → (w'.store.due i).lookup id = none

/-- The marker of one more index is removed, or the removal fails. -/
theorem Clearing.remove {cleared : List DueIndex} {w' : World} {failed' : List Part} {i : DueIndex}
    (h : Clearing id w failed cleared w' failed') (hi : i ∉ cleared)
    {Q : Except Error Unit → (World × Fifo) × List Part → Prop}
    (hQ : ∀ a w'' failed'', Clearing id w failed (i :: cleared) w'' failed'' →
      Q a ((w'', F), failed'')) :
    wp ρ.noting.every (removeDueJob i id) Q ((w', F), failed') := by
  have hin : ∀ {j : DueIndex}, j ≠ i → (Part.marker j id ∈ Part.marker i id :: failed' ↔
      Part.marker j id ∈ failed') := fun hj => by
    rw [List.mem_cons]
    exact or_iff_right fun he => hj (Part.marker.inj he).1
  refine wp_parts_removeDueJob (fun e => hQ _ _ _ ?_) (hQ _ _ _ ?_)
  · refine ⟨h.jobs, h.workflows, h.listed, fun x hx => ?_, ?_, fun j hj => ?_, fun j hj hf => ?_,
      fun j hj hf => ?_⟩
    · have hmarker : (Part.marker i id).ofCancel id = true := decide_eq_true rfl
      exact (mem_cons_of_ofCancel hmarker hx).trans (h.parts x hx)
    · rw [List.mem_cons, or_iff_right (by simp)]
      exact h.job
    · obtain ⟨hne, hj⟩ := not_or.mp (List.mem_cons.not.mp hj)
      exact ⟨(h.waiting j hj).1, (hin hne).trans (h.waiting j hj).2⟩
    · by_cases hne : j = i
      · exact (h.waiting j (hne ▸ hi)).1
      · exact h.undone j hj ((hin hne).mp hf)
    · by_cases hne : j = i
      · exact absurd (hne ▸ List.mem_cons_self) hf
      · exact h.done j ((List.mem_cons.mp hj).resolve_left hne) fun hm => hf ((hin hne).mpr hm)
  · have hother : ∀ {j : DueIndex}, j ≠ i →
        ((w'.removeDue i id).store.due j).lookup id = (w'.store.due j).lookup id := fun hj => by
      simp only [World.removeDue, Store.setDue, Function.update_of_ne hj]
    have hself : ((w'.removeDue i id).store.due i).lookup id = none := by
      simp only [World.removeDue, Store.setDue, Function.update_self]
      exact AList.lookup_erase _ _
    refine ⟨h.jobs, h.workflows, h.listed, h.parts, h.job, fun j hj => ?_, fun j hj hf => ?_,
      fun j hj hf => ?_⟩
    · obtain ⟨hne, hj⟩ := not_or.mp (List.mem_cons.not.mp hj)
      exact ⟨(hother hne).trans (h.waiting j hj).1, (h.waiting j hj).2⟩
    · by_cases hne : j = i
      · exact absurd ((h.waiting j (hne ▸ hi)).2.mp hf) hj
      · exact (hother hne).trans (h.undone j hj hf)
    · by_cases hne : j = i
      · rw [hne]
        exact hself
      · exact (hother hne).trans (h.done j ((List.mem_cons.mp hj).resolve_left hne) hf)

/-- The record is left as it is. -/
theorem Cancels.same {w' : World} {failed' : List Part} (hw : w'.store = w.store)
    (hparts : ∀ x : Part, x.ofCancel id = false → (x ∈ failed' ↔ x ∈ failed))
    (h : ∀ r, w.store.jobs.lookup id = some r →
      isTerminalState r.state = true ∨ .job id ∈ failed') : Cancels id w failed w' failed' := by
  refine ⟨fun i _ => by rw [hw], by rw [hw], by rw [hw], hparts, fun r hr _ => by rw [hw]; exact hr, ?_⟩
  intro r hr hlive hno
  rcases h r hr with ht | hf
  · rw [hlive] at ht
    cases ht
  · exact absurd hf hno

theorem wp_parts_cancel {Q : Except Error Job → (World × Fifo) × List Part → Prop} (hnew : .job id ∉ failed)
    (h : ∀ a w' F' failed', Cancels id w failed w' failed' →
      (∀ job, a = .ok job → (∀ i, .marker i id ∉ failed) → RemovesMarkers id w w' failed' ∧
        ∃ r, w.store.jobs.lookup id = some r ∧ isTerminalState r.state = false) →
      Q a ((w', F'), failed')) :
    wp ρ.noting.every (cancel cfg id) Q ((w, F), failed) := by
  have hjob : (Part.job id).ofCancel id = true := decide_eq_true rfl
  rw [cancel, wp_bind]
  refine wp_parts_getJob (fun e => ?_) (fun hn e => ?_) fun r hr => ?_
  · exact h _ _ _ _ (.same rfl (fun x hx => mem_cons_of_ofCancel hjob hx)
      fun r _ => .inr List.mem_cons_self) fun _ h => by cases h
  · refine h _ _ _ _ (.same rfl (fun _ _ => Iff.rfl) fun r hr => ?_) fun _ h => by cases h
    rw [hn] at hr
    cases hr
  · simp only [wp_ite]
    split
    · rename_i ht
      refine h _ _ _ _ (.same rfl (fun _ _ => Iff.rfl) fun r' hr' => .inl ?_) fun _ h => by cases h
      rw [← Option.some.inj (hr.symm.trans hr')]
      exact ht
    · rename_i hlive
      have hlive : isTerminalState r.state = false := Bool.eq_false_iff.mpr hlive
      rw [wp_bind]
      refine wp_parts_nowFormatted fun t _ => ?_
      rw [wp_bind]
      refine wp_parts_aside (only_dropMessage cfg r) fun _ w₁ F₁ failed₁ hw₁ hparts₁ => ?_
      have hstart : Clearing id w failed [] w₁ failed₁ := by
        have hstore : w₁.store = w.store := hw₁
        refine ⟨by rw [hstore], by rw [hstore], by rw [hstore], fun x hx => hparts₁ x ?_,
          hparts₁ _ (by simp), fun i _ => ⟨by rw [hstore], hparts₁ _ (by simp)⟩,
          fun i _ _ => by rw [hstore], fun i hi => by cases hi⟩
        rintro rfl
        cases hx
      rw [wp_bind]
      refine hstart.remove List.not_mem_nil fun _ w₂ failed₂ h₂ => ?_
      rw [wp_bind]
      refine h₂.remove (by decide) fun _ w₃ failed₃ h₃ => ?_
      have hr₃ : w₃.store.jobs.lookup id = some r := by
        rw [h₃.jobs]
        exact hr
      have hall : ∀ i : DueIndex, i ∈ [DueIndex.retry, DueIndex.scheduled] := fun i => by
        cases i <;> decide
      rw [wp_bind]
      refine wp_parts_updateJobState hr₃ (fun e => h _ _ _ _ ?_ fun _ _ hno => ⟨⟨fun i hf => ?_, fun i hf => ?_⟩,
        r, hr, hlive⟩) (h _ _ _ _ ?_ fun _ _ hno => ⟨⟨fun i hf => h₃.undone i (hno i) hf,
        fun i hf => h₃.done i (hall i) hf⟩, r, hr, hlive⟩)
      · -- the update has failed
        refine ⟨fun i _ => by rw [h₃.jobs], h₃.workflows, h₃.listed,
          fun x hx => (mem_cons_of_ofCancel hjob hx).trans (h₃.parts x hx), ?_, ?_⟩
        · intro r' hr' _
          rw [h₃.jobs]
          exact hr'
        · exact fun _ _ _ hf => absurd List.mem_cons_self hf
      · exact h₃.undone i (hno i) ((List.mem_cons.mp hf).resolve_left (by simp))
      · exact h₃.done i (hall i) fun hin => hf (List.mem_cons_of_mem _ hin)
      · refine ⟨fun i hi => ?_, h₃.workflows, h₃.listed, h₃.parts, fun r' hr' hcase => ?_,
          fun _ _ _ _ => ⟨_, AList.lookup_insert _, rfl⟩⟩
        · have hne : i ≠ id := hi.elim (fun h => h) fun hn he => by
            rw [he, hr] at hn
            cases hn
          rw [World.setJob, AList.lookup_insert_ne hne, h₃.jobs]
        · obtain rfl := Option.some.inj (hr.symm.trans hr')
          rcases hcase with ht | hf
          · rw [hlive] at ht
            cases ht
          · exact absurd (h₃.job.mp hf) hnew

end

/-! ## CancelWorkflow -/

/-- What the Cancels of a workflow's jobs do. -/
structure CancelsAll (ids : List String) (w : World) (failed : List Part) (w' : World)
    (failed' : List Part) : Prop where
  others : ∀ i, i ∉ ids ∨ w.store.jobs.lookup i = none →
    w'.store.jobs.lookup i = w.store.jobs.lookup i
  workflows : w'.store.workflows = w.store.workflows
  listed : w'.store.workflowJobs = w.store.workflowJobs
  parts : ∀ x : Part, x ≠ .sending → (∀ id ∈ ids, x.ofCancel id = false) →
    (x ∈ failed' ↔ x ∈ failed)
  undone : ∀ id ∈ ids, ∀ r, w.store.jobs.lookup id = some r →
    isTerminalState r.state = true ∨ .job id ∈ failed' → w'.store.jobs.lookup id = some r
  done : ∀ id ∈ ids, ∀ r, w.store.jobs.lookup id = some r → isTerminalState r.state = false →
    .job id ∉ failed' → ∃ r', w'.store.jobs.lookup id = some r' ∧ r'.state = .cancelled

section
variable {cfg : Config} {ρ : Rules} {w : World} {F : Fifo} {failed : List Part} {id : String}

theorem Cancels.cons {ids : List String} {w₁ w₂ : World} {failed₁ failed₂ : List Part}
    (h : Cancels id w failed w₁ failed₁) (hs : CancelsAll ids w₁ failed₁ w₂ failed₂) (hid : id ∉ ids) :
    CancelsAll (id :: ids) w failed w₂ failed₂ := by
  have hkept : Part.job id ∈ failed₂ ↔ Part.job id ∈ failed₁ :=
    hs.parts _ (by simp) fun j hj => decide_eq_false fun he => hid (he ▸ hj)
  have hfirst : w₂.store.jobs.lookup id = w₁.store.jobs.lookup id := hs.others id (.inl hid)
  have hrest : ∀ j ∈ ids, w₁.store.jobs.lookup j = w.store.jobs.lookup j := fun j hj =>
    h.others j (.inl fun he => hid (he ▸ hj))
  refine ⟨fun i hi => ?_, hs.workflows.trans h.workflows, hs.listed.trans h.listed,
    fun x hne hx => ?_, fun j hj r hr hcase => ?_, fun j hj r hr hlive hno => ?_⟩
  · rcases hi with hi | hi
    · obtain ⟨hne, hi⟩ := not_or.mp (List.mem_cons.not.mp hi)
      exact (hs.others i (.inl hi)).trans (h.others i (.inl hne))
    · have hmid := h.others i (.inr hi)
      exact (hs.others i (.inr (hmid.trans hi))).trans hmid
  · exact (hs.parts x hne fun j hj => hx j (List.mem_cons_of_mem _ hj)).trans
      (h.parts x (hx id List.mem_cons_self))
  · rcases List.mem_cons.mp hj with rfl | hj
    · rw [hfirst]
      exact h.undone r hr (hcase.imp_right hkept.mp)
    · exact hs.undone j hj r ((hrest j hj).trans hr) hcase
  · rcases List.mem_cons.mp hj with rfl | hj
    · rw [hfirst]
      exact h.done r hr hlive fun hf => hno (hkept.mpr hf)
    · exact hs.done j hj r ((hrest j hj).trans hr) hlive hno

theorem wp_parts_cancelJobs {ids : List String} (hnd : ids.Nodup) (hnew : ∀ j ∈ ids, .job j ∉ failed) :
    wp ρ.noting.every (cancelJobs cfg ids)
      (fun _ x => CancelsAll ids w failed x.1.1 x.2) ((w, F), failed) := by
  induction ids generalizing w F failed with
  | nil =>
    exact ⟨fun _ _ => rfl, rfl, rfl, fun _ _ _ => Iff.rfl, fun _ hj => (by cases hj),
      fun _ hj => (by cases hj)⟩
  | cons id ids ih =>
    obtain ⟨hid, hnd⟩ := List.nodup_cons.mp hnd
    have hjob : (Part.job id).ofCancel id = true := decide_eq_true rfl
    have hrest : ∀ w₁ F₁ failed₁, Cancels id w failed w₁ failed₁ →
        wp ρ.noting.every (cancelJobs cfg ids)
          (fun _ x => CancelsAll (id :: ids) w failed x.1.1 x.2) ((w₁, F₁), failed₁) := by
      intro w₁ F₁ failed₁ h₁
      refine wp_mono (Env.every_mono _) _ (ih hnd fun j hj => ?_) fun _ x hx => h₁.cons hx hid
      have hother : (Part.job j).ofCancel id = false := decide_eq_false fun he => hid (he ▸ hj)
      exact fun hf => hnew j (List.mem_cons_of_mem _ hj) ((h₁.parts _ hother).mp hf)
    rw [cancelJobs, wp_bind]
    refine wp_parts_getJob (fun e => ?_) (fun hn e => ?_) fun r hr => ?_
    · exact hrest _ _ _ (.same rfl (fun x hx => mem_cons_of_ofCancel hjob hx) fun r _ => .inr List.mem_cons_self)
    · refine hrest _ _ _ (.same rfl (fun _ _ => Iff.rfl) fun r hr => ?_)
      rw [hn] at hr
      cases hr
    · simp only [wp_ite]
      split
      · rename_i ht
        refine hrest _ _ _ (.same rfl (fun _ _ => Iff.rfl) fun r' hr' => .inl ?_)
        rw [← Option.some.inj (hr.symm.trans hr')]
        exact ht
      · rw [wp_bind]
        exact wp_parts_cancel (hnew id List.mem_cons_self) fun _ w₁ F₁ failed₁ h₁ _ =>
          hrest w₁ F₁ failed₁ h₁

end

/-! ## RetryDeadLetter -/

section
variable {cfg : Config} {ρ : Rules} {w : World} {F : Fifo} {failed : List Part}

theorem wp_parts_getOrCreateQueueURL {queue : String}
    {Q : Except Error String → (World × Fifo) × List Part → Prop}
    (hfail : ∀ e, Q (.error e) ((w, F), .sending :: failed))
    (hok : Q (.ok (w.urlOf cfg queue)) ((w.openQueue cfg queue, F), failed)) :
    wp ρ.noting.every (getOrCreateQueueURL cfg queue) Q ((w, F), failed) := by
  refine wp_noting ((ordinary_getOrCreateQueueURL cfg queue).mono fun c hc => ?_) ?_
  · cases c with
    | sqs c => cases c <;> first | rfl | cases hc
    | _ => rfl
  · exact (parts_notes failed).getOrCreateQueueURL rfl cfg (fun _ _ _ => rfl) rfl
      (fun e g hg => hg ▸ hfail e) fun g hg => hg ▸ hok

/-- A send that a FIFO queue drops as a repeat is answered like any other. -/
theorem wp_parts_sendToSQS {job : Job} {Q : Except Error MessageId → (World × Fifo) × List Part → Prop}
    (hclosed : ∀ e, Q (.error e) ((w, F), .sending :: failed))
    (hbig : encodes cfg job = false → ∀ e, Q (.error e) ((w.openQueue cfg job.queue, F), failed))
    (hfail : ∀ e, Q (.error e) ((w.openQueue cfg job.queue, F), .sending :: failed))
    (hdrop : Drops cfg (w, F) w.clock job → ∀ m F', Q (.ok m) ((w.openQueue cfg job.queue, F'), failed))
    (hok : encodes cfg job = true → ¬ Drops cfg (w, F) w.clock job → ∀ m F',
      Q (.ok m) (((w.openQueue cfg job.queue).setSqs ((w.openQueue cfg job.queue).sqs.send
        (w.urlOf cfg job.queue) (outMessage cfg job job)), F'), failed)) :
    wp ρ.noting.every (sendToSQS cfg job) Q ((w, F), failed) := by
  rw [sendToSQS, wp_bind]
  refine wp_parts_getOrCreateQueueURL hclosed ?_
  rw [encodes] at hbig hok
  have hclock : (w.openQueue cfg job.queue).clock = w.clock := w.openQueue_clock cfg job.queue
  cases he : encodeJob cfg job with
  | error e =>
    rw [he] at hbig
    exact hbig rfl e
  | ok body =>
    obtain rfl := encodeJob_body he
    rw [he] at hok
    simp only
    rw [wp_bind]
    refine wp_ghost (wp_filter (wp_sqs_faulty rfl (fun _ _ h => by cases h) (fun msg => hfail _) ?_))
    show Q _ (ite _ _ _, failed)
    split
    · rename_i hrep
      rw [hclock] at hrep
      exact hdrop hrep _ _
    · rename_i hrep
      rw [hclock] at hrep
      exact hok rfl hrep _ _

end

/-! ## The three operations -/

/-- The operations whose reply does not depend on their later calls. -/
inductive Reversal where
  | cancel (jobID : String)
  | cancelWorkflow (id : String)
  | retryDeadLetter (jobID : String)

namespace Reversal

abbrev Result : Reversal → Type
  | .cancel _ | .retryDeadLetter _ => Job
  | .cancelWorkflow _ => Workflow

def prog (cfg : Config) : (o : Reversal) → M (Except Error o.Result)
  | .cancel jobID => OjsSqs.cancel cfg jobID
  | .cancelWorkflow id => OjsSqs.cancelWorkflow cfg id
  | .retryDeadLetter jobID => OjsSqs.retryDeadLetter cfg jobID

/-- The message of the job is in its queue. -/
def Queued (cfg : Config) (id queue : String) (w : World) : Prop :=
  ∃ m ∈ w.sqs.messages, m.jobID = some id ∧ m.queueURL = w.urlOf cfg queue

/-- What a success says about the state after it. -/
def Truthful (cfg : Config) : Reversal → World → Prop
  | .cancel jobID, w => (∃ r, w.store.jobs.lookup jobID = some r ∧ r.state = .cancelled) ∧
    ∀ i, (w.store.due i).lookup jobID = none
  | .cancelWorkflow id, w => (∃ wf, w.store.workflows.lookup id = some wf ∧ wf.state = .cancelled) ∧
    ∀ jobID r, (id, jobID) ∈ w.store.workflowJobs → w.store.jobs.lookup jobID = some r →
      isTerminalState r.state = true
  | .retryDeadLetter jobID, w => ∃ r, w.store.jobs.lookup jobID = some r ∧ r.state = .available ∧
    r.attempt = 0 ∧ w.store.deadLetters.lookup jobID = none ∧ Queued cfg jobID r.queue w

/-- The parts left undone do no harm in the state before: they did not have to
be done. A retry also has to fit into a message that its queue does not drop,
with the instant the clock showed. -/
def Harmless (cfg : Config) (s : World × Fifo) (now : Time) (failed : List Part) : Reversal → Prop
  | .cancel jobID => .job jobID ∉ failed ∧
    ∀ i, .marker i jobID ∈ failed → (s.1.store.due i).lookup jobID = none
  | .cancelWorkflow id => .workflow id ∉ failed ∧
    ∀ jobID r, (id, jobID) ∈ s.1.store.workflowJobs → s.1.store.jobs.lookup jobID = some r →
      isTerminalState r.state = false → .listing jobID ∉ failed ∧ .job jobID ∉ failed
  | .retryDeadLetter jobID => .deadLetter jobID ∉ failed ∧
    ∃ r, s.1.store.jobs.lookup jobID = some r ∧
      (.job jobID ∈ failed → r.state = .available ∧ r.attempt = 0) ∧
      (.sending ∈ failed ∨ encodes cfg (deadLetterJob cfg now r) = false ∨
        Drops cfg s now (deadLetterJob cfg now r) → Queued cfg jobID r.queue s.1)

variable {cfg : Config} {ρ : Rules} {w : World} {F : Fifo}

theorem cancel_truthful (id : String) :
    wp ρ.noting.every (OjsSqs.cancel cfg id) (fun a x => ∀ job, a = .ok job →
      (Truthful cfg (.cancel id) x.1.1 ↔ Harmless cfg (w, F) x.1.1.clock x.2 (.cancel id))) ((w, F), []) := by
  refine wp_parts_cancel List.not_mem_nil fun a w' F' failed hc hm job ha => ?_
  obtain ⟨hmarkers, r, hr, hlive⟩ := hm job ha fun i => List.not_mem_nil
  constructor
  · rintro ⟨⟨r', hr', hstate⟩, hnone⟩
    refine ⟨fun hf => ?_, fun i hf => (hmarkers.undone i hf).symm.trans (hnone i)⟩
    have hsame := hc.undone r hr (.inr hf)
    rw [hr'] at hsame
    rw [← Option.some.inj hsame, hstate] at hlive
    cases hlive
  · rintro ⟨hjob, hgone⟩
    refine ⟨hc.done r hr hlive hjob, fun i => ?_⟩
    by_cases hf : Part.marker i id ∈ failed
    · exact (hmarkers.undone i hf).trans (hgone i hf)
    · exact hmarkers.done i hf

/-- The jobs of the workflow end well exactly when nothing left undone has kept
one of them from being cancelled. -/
theorem jobs_terminal_iff {id : String} {ids : List String} {w' : World} {failed failed' : List Part}
    (hc : CancelsAll ids w failed w' failed') (hout : ∀ j, .listing j ∈ failed → j ∉ ids)
    (hall : ∀ j, (id, j) ∈ w.store.workflowJobs → .listing j ∉ failed → j ∈ ids) :
    (∀ j r, (id, j) ∈ w'.store.workflowJobs → w'.store.jobs.lookup j = some r →
      isTerminalState r.state = true) ↔
    ∀ j r, (id, j) ∈ w.store.workflowJobs → w.store.jobs.lookup j = some r →
      isTerminalState r.state = false → .listing j ∉ failed' ∧ .job j ∉ failed' := by
  have hlist : ∀ j, .listing j ∈ failed' ↔ .listing j ∈ failed :=
    fun j => hc.parts _ (by simp) fun _ _ => rfl
  rw [hc.listed]
  constructor
  · intro h j r hj hr hlive
    have hlost : w'.store.jobs.lookup j ≠ some r := fun he => by
      rw [h j r hj he] at hlive
      cases hlive
    have hlisted : .listing j ∉ failed := fun hf =>
      hlost ((hc.others j (.inl (hout j hf))).trans hr)
    exact ⟨fun hf => hlisted ((hlist j).mp hf),
      fun hf => hlost (hc.undone j (hall j hj hlisted) r hr (.inr hf))⟩
  · intro h j r' hj hr'
    cases hr : w.store.jobs.lookup j with
    | none =>
      rw [hc.others j (.inr hr), hr] at hr'
      cases hr'
    | some r =>
      cases hlive : isTerminalState r.state with
      | true =>
        have hkept : w'.store.jobs.lookup j = some r := by
          by_cases hin : j ∈ ids
          · exact hc.undone j hin r hr (.inl hlive)
          · exact (hc.others j (.inl hin)).trans hr
        rw [← Option.some.inj (hkept.symm.trans hr')]
        exact hlive
      | false =>
        obtain ⟨hno, hjob⟩ := h j r hj hr hlive
        obtain ⟨r'', hr'', hstate⟩ := hc.done j (hall j hj fun hf => hno ((hlist j).mpr hf)) r hr hlive hjob
        rw [← Option.some.inj (hr''.symm.trans hr'), hstate]
        rfl

/-- The items of a workflow's jobs are different, as the items of the table are. -/
theorem nodup_jobsOf (hlist : w.store.workflowJobs.Nodup) (id : String) :
    (w.store.jobsOf id).Nodup := by
  refine List.Nodup.map_on (fun x hx y hy he => ?_) (hlist.filter _)
  have hx₁ : x.1 = id := of_decide_eq_true (List.mem_filter.mp hx).2
  have hy₁ : y.1 = id := of_decide_eq_true (List.mem_filter.mp hy).2
  exact Prod.ext (hx₁.trans hy₁.symm) he

theorem mem_jobsOf {id j : String} : j ∈ w.store.jobsOf id ↔ (id, j) ∈ w.store.workflowJobs := by
  simp [Store.jobsOf]

theorem cancelWorkflow_truthful (hlist : w.store.workflowJobs.Nodup) (id : String) :
    wp ρ.noting.every (OjsSqs.cancelWorkflow cfg id) (fun a x => ∀ wf, a = .ok wf →
      (Truthful cfg (.cancelWorkflow id) x.1.1 ↔ Harmless cfg (w, F) x.1.1.clock x.2 (.cancelWorkflow id)))
      ((w, F), []) := by
  rw [OjsSqs.cancelWorkflow, wp_bind, getWorkflow, wp_bind, getWorkflowRecord, wp_bind]
  refine wp_noting (Prog.only_perform rfl) ?_
  refine (parts_notes []).dynamo rfl rfl rfl (fun msg g _ => fun _ h => by cases h) fun g hg => ?_
  obtain rfl := hg
  simp only [Store.run, World.setStore_store]
  cases hwf : w.store.workflows.lookup id with
  | none => exact fun _ h => by cases h
  | some wf =>
    simp only [wp_pure, wp_ite]
    split
    · exact fun _ h => by cases h
    · rename_i hrunning
      have htail : ∀ (jobIDs : List String) (failed : List Part), jobIDs.Nodup →
          (∀ j, .job j ∉ failed) → .workflow id ∉ failed → (∀ j, .listing j ∈ failed → j ∉ jobIDs) →
          (∀ j, (id, j) ∈ w.store.workflowJobs → .listing j ∉ failed → j ∈ jobIDs) →
          wp ρ.noting.every (cancelJobs cfg jobIDs >>= fun _ => nowFormatted cfg >>= fun now =>
            updateWorkflow id [.state .cancelled, .completedAt now] >>= fun _ =>
              (return .ok { workflowOf wf with id := id, state := .cancelled, completedAt := now } :
                M (Except Error Workflow)))
            (fun a x => ∀ wf, a = .ok wf → (Truthful cfg (.cancelWorkflow id) x.1.1 ↔
              Harmless cfg (w, F) x.1.1.clock x.2 (.cancelWorkflow id))) ((w, F), failed) := by
        intro jobIDs failed hnd hjobs hflow hout hall
        rw [wp_bind]
        refine wp_mono (Env.every_mono _) _ (wp_parts_cancelJobs hnd fun j _ => hjobs j) ?_
        rintro - ⟨⟨w₁, F₁⟩, failed₁⟩ hc
        have hiff := jobs_terminal_iff hc hout hall
        have hflow₁ : .workflow id ∉ failed₁ := fun hf =>
          hflow ((hc.parts _ (by simp) fun _ _ => rfl).mp hf)
        rw [wp_bind]
        refine wp_parts_nowFormatted fun t _ => ?_
        have hwf₁ : (w₁.setClock t).store.workflows.lookup id = some wf := by
          rw [← hwf, ← hc.workflows]
          rfl
        have hrun : ∀ us, (w₁.setClock t).store.run (.updateWorkflowItem id us) = (.ok (),
            { w₁.store with workflows := w₁.store.workflows.insert id (wf.update us) }) := fun us => by
          simp only [Store.run, hwf₁]
          rfl
        rw [wp_bind, updateWorkflow, if_neg (by simp)]
        refine wp_parts_request rfl (congrArg Prod.fst (hrun _)) (fun e => fun _ _ => ?_) fun _ _ => ?_
        · -- the workflow is still running
          refine iff_of_false (fun h => ?_) fun h => h.1 List.mem_cons_self
          obtain ⟨wf', hwf', hstate⟩ := h.1
          rw [← Option.some.inj (hwf₁.symm.trans hwf')] at hstate
          exact hrunning (.inr (.inr hstate))
        · rw [hrun]
          refine (and_iff_right ⟨_, AList.lookup_insert _, rfl⟩).trans (hiff.trans (and_iff_right hflow₁).symm)
      rw [wp_bind]
      refine wp_parts_getWorkflowJobs (nodup_jobsOf hlist id) fun a hnd hin => ?_
      refine htail _ _ hnd (fun j => by simp) (by simp) (fun j hj => ?_) fun j hj hno => ?_
      · simpa using fun hmem : j ∈ a.toOption.getD [] => by simp [hmem] at hj
      · by_contra hmem
        exact hno (by simp [hmem, mem_jobsOf.mpr hj])

theorem queued_openQueue {id queue : String} :
    Queued cfg id queue (w.openQueue cfg queue) ↔ Queued cfg id queue w := by
  rw [Queued, World.openQueue_messages, World.openQueue_urlOf, Queued]

/-- After the send the message is there, or it was before. -/
theorem wp_parts_sendQueued {failed : List Part} {job : Job} (hnew : .sending ∉ failed)
    {Q : Except Error MessageId → (World × Fifo) × List Part → Prop}
    (h : ∀ a w' F' failed', w'.store = w.store → w'.clock = w.clock →
      (∀ x, x ≠ .sending → (x ∈ failed' ↔ x ∈ failed)) →
      (Queued cfg job.id job.queue w' ↔ (.sending ∈ failed' ∨ encodes cfg job = false ∨
        Drops cfg (w, F) w.clock job → Queued cfg job.id job.queue w)) →
      Q a ((w', F'), failed')) :
    wp ρ.noting.every (sendToSQS cfg job) Q ((w, F), failed) := by
  have hone : ∀ x : Part, x ≠ .sending → (x ∈ .sending :: failed ↔ x ∈ failed) := fun x hx => by
    rw [List.mem_cons]
    exact or_iff_right hx
  have hlost : ∀ {P C : Prop}, (P ↔ (.sending ∈ .sending :: failed ∨ C → P)) :=
    ⟨fun hp _ => hp, fun hp => hp (.inl List.mem_cons_self)⟩
  have hstore : (w.openQueue cfg job.queue).store = w.store := w.openQueue_store cfg job.queue
  have hclock : (w.openQueue cfg job.queue).clock = w.clock := w.openQueue_clock cfg job.queue
  refine wp_parts_sendToSQS (fun e => ?_) (fun hbig e => ?_) (fun e => ?_) (fun hdrop m F' => ?_)
    fun hfits hkeep m F' => ?_
  · exact h _ _ _ _ rfl rfl hone hlost
  · refine h _ _ _ _ hstore hclock (fun _ _ => Iff.rfl) (queued_openQueue.trans ?_)
    exact ⟨fun hq _ => hq, fun hq => hq (.inr (.inl hbig))⟩
  · exact h _ _ _ _ hstore hclock hone (queued_openQueue.trans hlost)
  · refine h _ _ _ _ hstore hclock (fun _ _ => Iff.rfl) (queued_openQueue.trans ?_)
    exact ⟨fun hq _ => hq, fun hq => hq (.inr (.inr hdrop))⟩
  · refine h _ _ _ _ hstore hclock (fun _ _ => Iff.rfl) (iff_of_true ?_ ?_)
    · refine ⟨_, List.mem_append_right _ (List.mem_singleton_self _), rfl, ?_⟩
      exact (World.openQueue_urlOf cfg w _ _).symm
    · rintro (hf | hbig | hdrop)
      · exact absurd hf hnew
      · rw [hfits] at hbig
        cases hbig
      · exact absurd hdrop hkeep

theorem retryDeadLetter_truthful (hn : w.NamedJobs) (id : String) :
    wp ρ.noting.every (OjsSqs.retryDeadLetter cfg id) (fun a x => ∀ job, a = .ok job →
      (Truthful cfg (.retryDeadLetter id) x.1.1 ↔ Harmless cfg (w, F) x.1.1.clock x.2 (.retryDeadLetter id)))
      ((w, F), []) := by
  rw [OjsSqs.retryDeadLetter, wp_bind]
  refine wp_parts_request rfl rfl (fun e => fun _ h => by cases h) ?_
  rw [wp_ite]
  split
  · rename_i hdead
    have hdead : (w.store.deadLetters.lookup id).isSome = true := hdead
    rw [wp_bind]
    refine wp_parts_now fun t _ => ?_
    rw [wp_bind]
    refine wp_parts_getJob (fun e => fun _ h => by cases h) (fun _ e => fun _ h => by cases h) fun r hr => ?_
    have hid : r.id = id := hn id r hr
    -- the record and the dead letter set after the two writes
    have hsend : ∀ w₂ failed₂ r₂, w₂.sqs = w.sqs → w₂.queueURLs = w.queueURLs → w₂.clock = t →
        w₂.store.jobs.lookup id = some r₂ → r₂.queue = r.queue →
        (w₂.store.deadLetters.lookup id = none ↔ .deadLetter id ∉ failed₂) → .sending ∉ failed₂ →
        (r₂.state = .available ∧ r₂.attempt = 0 ↔
          (.job id ∈ failed₂ → r.state = .available ∧ r.attempt = 0)) →
        wp ρ.noting.every (sendToSQS cfg (deadLetterJob cfg t r) >>= fun _ => info id)
          (fun a x => ∀ job, a = .ok job → (Truthful cfg (.retryDeadLetter id) x.1.1 ↔
            Harmless cfg (w, F) x.1.1.clock x.2 (.retryDeadLetter id))) ((w₂, F), failed₂) := by
      intro w₂ failed₂ r₂ hsqs hurls hclock hr₂ hqueue hgone hno hreset
      have hsame : Queued cfg id r.queue w₂ ↔ Queued cfg id r.queue w := by
        rw [Queued, Queued, World.urlOf, World.urlOf, hsqs, hurls]
      rw [wp_bind]
      have hdrops : Drops cfg (w₂, F) w₂.clock (deadLetterJob cfg t r) ↔
          Drops cfg (w, F) t (deadLetterJob cfg t r) := by
        rw [Drops, Drops, World.urlOf, World.urlOf, hurls, hclock]
      refine wp_parts_sendQueued hno fun a w₃ F₃ failed₃ hstore hclock₃ hparts hq => ?_
      rw [show (deadLetterJob cfg t r).id = id from hid,
        show (deadLetterJob cfg t r).queue = r.queue from rfl, hsame, hdrops] at hq
      rw [info, wp_bind]
      refine wp_parts_getJob (fun e => fun _ h => by cases h) (fun _ e => fun _ h => by cases h)
        fun r₃ hr₃ => fun _ _ => ?_
      rw [hstore, hr₂] at hr₃
      obtain rfl := Option.some.inj hr₃
      have hdead₃ : .deadLetter id ∉ failed₃ ↔ w₃.store.deadLetters.lookup id = none := by
        rw [hparts _ (by simp), hstore]
        exact hgone.symm
      have hjob₃ : .job id ∈ failed₃ ↔ .job id ∈ failed₂ := hparts _ (by simp)
      constructor
      · rintro ⟨r', hr', hstate, hattempt, hnone, hqueued⟩
        rw [hstore, hr₂] at hr'
        obtain rfl := Option.some.inj hr'
        rw [hqueue] at hqueued
        refine ⟨hdead₃.mpr hnone, r, hr, fun hf => hreset.mp ⟨hstate, hattempt⟩ (hjob₃.mp hf), ?_⟩
        rw [hclock₃, hclock]
        exact hq.mp hqueued
      · rintro ⟨hno₃, r', hr', hback, hmsg⟩
        obtain rfl := Option.some.inj (hr.symm.trans hr')
        rw [hclock₃, hclock] at hmsg
        obtain ⟨hstate, hattempt⟩ := hreset.mpr fun hf => hback (hjob₃.mpr hf)
        refine ⟨r₂, by rw [hstore]; exact hr₂, hstate, hattempt, hdead₃.mp hno₃, ?_⟩
        rw [hqueue]
        exact hq.mpr hmsg
    have hupdate : ∀ w₁ failed₁, w₁.sqs = w.sqs → w₁.queueURLs = w.queueURLs → w₁.clock = t →
        w₁.store.jobs.lookup id = some r →
        (w₁.store.deadLetters.lookup id = none ↔ .deadLetter id ∉ failed₁) → .sending ∉ failed₁ →
        .job id ∉ failed₁ →
        wp ρ.noting.every (updateJobState id .available (deadLetterUpdates cfg t) >>=
            fun _ => sendToSQS cfg (deadLetterJob cfg t r) >>= fun _ => info id)
          (fun a x => ∀ job, a = .ok job → (Truthful cfg (.retryDeadLetter id) x.1.1 ↔
            Harmless cfg (w, F) x.1.1.clock x.2 (.retryDeadLetter id))) ((w₁, F), failed₁) := by
      intro w₁ failed₁ hsqs hurls hclock hr₁ hgone hno hjob
      rw [wp_bind]
      refine wp_parts_updateJobState hr₁ (fun e => ?_) ?_
      · refine hsend w₁ (.job id :: failed₁) r hsqs hurls hclock hr₁ rfl ?_ ?_ ?_
        · rw [List.mem_cons, or_iff_right (by simp)]
          exact hgone
        · rw [List.mem_cons, or_iff_right (by simp)]
          exact hno
        · exact ⟨fun h _ => h, fun h => h List.mem_cons_self⟩
      · exact hsend _ failed₁ (r.moved .available (deadLetterUpdates cfg t)) hsqs hurls hclock
          (AList.lookup_insert _) (JobRecord.moved_queue ..) hgone hno
          (iff_of_true ⟨rfl, rfl⟩ fun hf => absurd hf hjob)
    rw [wp_bind]
    refine wp_parts_request rfl rfl (fun e => ?_) ?_
    · refine hupdate (w.setClock t) [.deadLetter id] rfl rfl rfl hr ?_ (by simp) (by simp)
      refine iff_of_false (fun hnone => ?_) fun hno => hno List.mem_cons_self
      rw [show w.store.deadLetters.lookup id = none from hnone] at hdead
      cases hdead
    · refine hupdate ((w.setClock t).removeDead id) [] rfl rfl rfl hr ?_ List.not_mem_nil List.not_mem_nil
      exact iff_of_true (AList.lookup_erase _ _) List.not_mem_nil
  · exact fun _ h => by cases h

/-- **A success is true exactly when nothing that matters was left undone**,
whatever calls fail, wherever the list of jobs stops and whatever the queues
have accepted before. -/
theorem success_truthful (cfg : Config) (ρ : Rules) (w : World) (F : Fifo) (hn : w.NamedJobs)
    (hlist : w.store.workflowJobs.Nodup) (o : Reversal) :
    wp ρ.noting.every (o.prog cfg) (fun a x => ∀ r, a = .ok r →
      (Truthful cfg o x.1.1 ↔ Harmless cfg (w, F) x.1.1.clock x.2 o)) ((w, F), []) := by
  cases o with
  | cancel id => exact cancel_truthful id
  | cancelWorkflow id => exact cancelWorkflow_truthful hlist id
  | retryDeadLetter id => exact retryDeadLetter_truthful hn id

/-- One job that waits for a worker. -/
def oneAvailable : World where
  store := { jobs := (∅ : Table JobRecord).insert "j1" { id := "j1", state := .available } }

theorem named_oneAvailable : oneAvailable.NamedJobs := by
  intro id r hr
  by_cases hid : id = "j1"
  · rw [hid, show oneAvailable.store.jobs.lookup "j1" = some { id := "j1", state := .available }
      from rfl] at hr
    rw [hid, ← Option.some.inj hr]
  · rw [oneAvailable, AList.lookup_insert_ne hid] at hr
    cases hr

theorem success_truthful_one : wp ({ faults := true } : Rules).noting.every (prog demo (.cancel "j1"))
    (fun a x => ∀ r, a = .ok r → (Truthful demo (.cancel "j1") x.1.1 ↔
      Harmless demo (oneAvailable, {}) x.1.1.clock x.2 (.cancel "j1"))) ((oneAvailable, {}), []) :=
  success_truthful demo { faults := true } oneAvailable {} named_oneAvailable List.nodup_nil (.cancel "j1")

/-- The write of the record fails, and the job is reported as cancelled. -/
theorem cancel_reports_lost_update : ¬ ∀ (cfg : Config) (ρ : Rules) (w : World) (o : Reversal),
    w.NamedJobs → w.store.workflowJobs.Nodup →
    wp ρ.env.every (o.prog cfg) (fun a w' => ∀ r, a = .ok r → Truthful cfg o w') w := by
  intro hall
  have hrun : (script ({ faults := true } : Rules).act
      [.ok, .tick 0, .ok, .ok, .ok, .fault "ProvisionedThroughputExceededException"]
      (OjsSqs.cancel demo "j1") oneAvailable).map (fun (a, w') =>
        (a.toOption.isSome, (w'.store.jobs.lookup "j1").map (·.state))) =
      some (true, some .available) := rfl
  obtain ⟨⟨a, w'⟩, hs, hend⟩ := Option.map_eq_some_iff.mp hrun
  simp only [Prod.mk.injEq, Option.map_eq_some_iff] at hend
  obtain ⟨hok, r, hr, hstate⟩ := hend
  cases a with
  | error e => cases hok
  | ok job =>
    have htrue := (wp_iff_runs _ _ _ _).mp
      (hall demo { faults := true } oneAvailable (.cancel "j1") named_oneAvailable List.nodup_nil) _ w'
      (script_runs _ hs)
    obtain ⟨⟨r', hr', hcancelled⟩, -⟩ := htrue job rfl
    rw [← Option.some.inj (hr.symm.trans hr'), hstate] at hcancelled
    cases hcancelled

end Reversal
end OjsSqs
