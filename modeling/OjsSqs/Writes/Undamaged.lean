import OjsSqs.Calls.Prog
import OjsSqs.Atomic.Steps
import OjsSqs.Batch.Agreement
import OjsSqs.Faults.Methods
import OjsSqs.System.Invariant
import OjsSqs.System.Pushing

/-! # What Push and PushBatch do to other jobs

The record of a new job is put whether or not one with its identifier is
stored. Where none is, no other job is touched, whatever calls fail: the calls
are about the new jobs, and about the job that a unique policy replaces. -/
namespace OjsSqs
open Calls

/-! ## Calls that leave a job alone -/

/-- The record and the messages of the job are the same. -/
structure SameJob (id : String) (w w' : World) : Prop where
  record : w'.store.jobs.lookup id = w.store.jobs.lookup id
  messages : w'.sqs.messagesOf id = w.sqs.messagesOf id

theorem SameJob.refl (id : String) (w : World) : SameJob id w w := ⟨rfl, rfl⟩

theorem SameJob.trans {id : String} {w w' w'' : World} (h : SameJob id w w') (h' : SameJob id w' w'') :
    SameJob id w w'' := ⟨h'.record.trans h.record, h'.messages.trans h.messages⟩

namespace Call

/-- The call neither writes the record of the job nor sends, hides or deletes
its messages. -/
def sparesJob (id : String) : Call → Prop
  | .dynamo (.putJobItem r) => r.id ≠ id
  | .dynamo (.updateJobItem jobID _ _ _ _) => jobID ≠ id
  | .sqs (.sendMessage _ m) => m.body.id ≠ id
  | .sqs (.sendMessageBatch _ ms) => ∀ m ∈ ms, m.body.id ≠ id
  | .sqs (.receiveMessage _ _ _) | .sqs (.deleteMessage _ _)
  | .sqs (.changeMessageVisibility _ _ _) => False
  | _ => True

/-- The call puts no record. -/
def putsNone : Call → Bool
  | .dynamo (.putJobItem _) => false
  | _ => true

end Call

theorem SqsState.sendBatch_messagesOf {id url : String} {ms : List OutMessage} {q : SqsState}
    (h : ∀ m ∈ ms, m.body.id ≠ id) : (q.sendBatch url ms).messagesOf id = q.messagesOf id := by
  induction ms generalizing q with
  | nil => rfl
  | cons m ms ih =>
    have hne : m.body.id ≠ id := h m List.mem_cons_self
    rw [SqsState.sendBatch, List.foldl_cons, ← SqsState.sendBatch,
      ih fun m' hm' => h m' (List.mem_cons_of_mem _ hm'), SqsState.send_messagesOf, if_neg hne]
    exact List.append_nil _

section
variable {ρ : Rules} {w w' : World} {id : String}

theorem Rules.env_sparesJob {c : Call} {r : Answer c} (hc : c.sparesJob id) (h : ρ.env c w r w') :
    SameJob id w w' := by
  refine ⟨Rules.env_job (fun hw => ?_) h, ?_⟩
  · cases c with
    | dynamo d => cases d <;> first | (cases hw; done) | exact hc (Option.some.inj hw)
    | sqs c => cases hw
    | proc c => cases hw
  · cases c with
    | dynamo d =>
      obtain ⟨_, _, -, -, rfl⟩ := Rules.env_dynamo h
      rfl
    | proc c => rw [Rules.env_proc_sqs h]
    | sqs c =>
      by_cases hb : ∃ url entries, c = .sendMessageBatch url entries
      · obtain ⟨url, entries, rfl⟩ := hb
        obtain ⟨ch, q, -, he, rfl⟩ := Rules.env_sqs h
        cases ch with
        | fault msg =>
          cases he
          rfl
        | ok =>
          cases he
          exact SqsState.sendBatch_messagesOf hc
        | refuse places =>
          cases he
          refine SqsState.sendBatch_messagesOf fun m hm => ?_
          obtain ⟨e, he, rfl⟩ := List.mem_map.mp hm
          exact hc e.1 (List.fst_mem_of_mem_zipIdx (List.mem_of_mem_filter he))
        | _ => cases he
      · have hrecv : c.isReceive = false := by cases c <;> first | rfl | exact hc.elim
        rcases Rules.env_sqs_cases hrecv (fun url entries he => hb ⟨url, entries, he⟩) h with
          ⟨msg, rfl, rfl⟩ | ⟨rfl, rfl⟩
        · rfl
        · cases c with
          | createQueue name => exact SqsState.createQueue_messagesOf name id
          | sendMessage url m =>
            have hne : m.body.id ≠ id := hc
            simp only [World.setSqs, SqsCall.run]
            rw [SqsState.send_messagesOf, if_neg hne]
            exact List.append_nil _
          | sendMessageBatch url entries => exact absurd ⟨url, entries, rfl⟩ hb
          | getQueueArn url => rfl
          | setRedrivePolicy url arn n => rfl
          | _ => exact hc.elim

end

/-! ## The job that is replaced -/

/-- The handle a job stores until it ends is the one of a message of its own, as
it is in every state that a run reaches. -/
def OwnHandles (w : World) : Prop :=
  ∀ id r h, w.store.jobs.lookup id = some r → isTerminalState r.state = false →
    r.sqsReceiptHandle = some h → ∀ m ∈ w.sqs.messages, m.receipt = some h → m.jobID = some id

theorem Agrees.ownHandles {cfg : Config} {w : World} (hg : Agrees cfg w) : OwnHandles w := by
  intro id r h hr hs hh m hm hreceipt
  have hf : Fits cfg .any [] w.bare id r := Good.fits hg id r hr
  have hown : holdsNoHandle r.state = true ∨ r.state = .active := by
    revert hs
    cases r.state <;> first | exact fun _ => .inl rfl | exact fun _ => .inr rfl | exact nofun
  have howns := hf.owns hown h hh
  have hmessage : m.id = h.message := ((Good.sound hg).sqs.receipts m hm h hreceipt).symm
  exact howns.own m hm hmessage

/-- The record is as it was, or the one of the cancelled job. -/
def CancelledOrSame (id : String) (w w' : World) : Prop :=
  w'.store.jobs.lookup id = w.store.jobs.lookup id ∨ ∃ r now, w.store.jobs.lookup id = some r ∧
    w'.store.jobs.lookup id = some (r.moved .cancelled
      [.state .cancelled, .cancelledAt now, .sqsReceiptHandle none])

/-- At most the job `id` has been cancelled. -/
structure CancelsOnly (id : String) (w w' : World) : Prop where
  others : ∀ i, i ≠ id → SameJob i w w'
  job : CancelledOrSame id w w'

section
variable {cfg : Config} {ρ : Rules} {w w' : World} {id : String}

theorem CancelsOnly.refl (id : String) (w : World) : CancelsOnly id w w :=
  ⟨fun i _ => .refl i w, .inl rfl⟩

/-- A call that may remove messages, but only the one of the handle. -/
def Call.dropsOf (handle : Option Receipt) (c : Call) : Prop :=
  c.writesJob = none ∧ ((∀ id, c.sparesJob id) ∨
    ∃ url h, c = .sqs (.deleteMessage url h) ∧ handle = some h)

theorem dropsOf_dropMessage (r : JobRecord) :
    (dropMessage cfg r).Only (Call.dropsOf r.sqsReceiptHandle) := by
  rw [dropMessage]
  split
  · exact Prog.only_pure _
  · rename_i h hh
    refine Prog.only_bind (only_queueURL cfg _ ⟨rfl, .inl fun _ => trivial⟩
      (fun _ => ⟨rfl, .inl fun _ => trivial⟩) (fun _ => ⟨rfl, .inl fun _ => trivial⟩)
      fun _ => ⟨rfl, .inl fun _ => trivial⟩) fun a => ?_
    split
    · exact Prog.only_pure _
    · exact Prog.only_bind (Prog.only_perform ⟨rfl, .inr ⟨_, h, rfl, hh⟩⟩) fun _ => Prog.only_pure _

/-- The records are the same, and the messages of the other jobs. -/
structure DropsOnly (id : String) (w w' : World) : Prop where
  records : ∀ i, w'.store.jobs.lookup i = w.store.jobs.lookup i
  others : ∀ i, i ≠ id → w'.sqs.messagesOf i = w.sqs.messagesOf i

theorem DropsOnly.call {r : JobRecord} {c : Call} {a : Answer c} {w₁ w₂ : World}
    (hown : ∀ h, r.sqsReceiptHandle = some h → ∀ m ∈ w.sqs.messages, m.receipt = some h →
      m.jobID = some id)
    (hc : c.dropsOf r.sqsReceiptHandle) (hd : DropsOnly id w w₁) (he : ρ.env c w₁ a w₂) :
    DropsOnly id w w₂ := by
  refine ⟨fun i => (Rules.env_jobs hc.1 he i).trans (hd.records i), fun i hi => ?_⟩
  rcases hc.2 with hspare | ⟨url, h, rfl, hh⟩
  · exact (Rules.env_sparesJob (hspare i) he).messages.trans (hd.others i hi)
  · rcases Rules.env_sqs_cases rfl (fun _ _ h => by cases h) he with ⟨msg, rfl, rfl⟩ | ⟨rfl, rfl⟩
    · exact hd.others i hi
    · -- a message of another job has another handle
      refine (SqsState.messagesOf_filter _ i).trans ?_
      rw [hd.others i hi, List.filter_eq_self]
      intro m hm
      obtain ⟨hm, hjob⟩ := SqsState.mem_messagesOf.mp hm
      refine decide_eq_true fun hboth => hi ?_
      exact Option.some.inj (hjob.symm.trans (hown h hh m hm hboth.2))

theorem cancel_only (hown : OwnHandles w) :
    wp ρ.env.every (cancel cfg id) (fun _ w' => CancelsOnly id w w') w := by
  rw [cancel, wp_bind]
  refine wp_getJob_any (fun e => .refl id w) fun r hr => ?_
  simp only [wp_ite, wp_pure]
  split
  · exact .refl id w
  · rename_i hs
    have hown := fun h => hown id r h hr (Bool.not_eq_true _ ▸ hs)
    have hdrops : ∀ {α : Type} {p : M α}, p.Only (Call.dropsOf r.sqsReceiptHandle) →
        ρ.env.Keeps (DropsOnly id w) p := fun hp _ hd =>
      hp.keeps (DropsOnly id w) (fun _ _ _ _ hc hd he => hd.call hown hc he) hd
    have hclear : ∀ i, ρ.env.Keeps (DropsOnly id w) (removeDueJob i id) := fun i =>
      hdrops (only_request ⟨rfl, .inl fun _ => trivial⟩)
    have hnow : ρ.env.Keeps (DropsOnly id w) (nowFormatted cfg) :=
      hdrops (Prog.only_bind (Prog.only_perform ⟨rfl, .inl fun _ => trivial⟩) fun _ => Prog.only_pure _)
    rw [wp_bind]
    refine wp_mono (Env.every_mono _) _ (hnow w ⟨fun _ => rfl, fun _ _ => rfl⟩) fun now w₁ h₁ => ?_
    rw [wp_bind]
    refine wp_mono (Env.every_mono _) _ (hdrops (dropsOf_dropMessage r) w₁ h₁) fun _ w₂ h₂ => ?_
    rw [wp_bind]
    refine wp_mono (Env.every_mono _) _ (hclear .scheduled w₂ h₂) fun _ w₃ h₃ => ?_
    rw [wp_bind]
    refine wp_mono (Env.every_mono _) _ (hclear .retry w₃ h₃) fun _ w₄ h₄ => ?_
    have hsame : CancelsOnly id w w₄ :=
      ⟨fun i hi => ⟨h₄.records i, h₄.others i hi⟩, .inl (h₄.records id)⟩
    rw [wp_bind, updateJobState, wp_bind]
    refine wp_getJob_any (fun e => hsame) fun r' hr' => ?_
    obtain rfl : r = r' := Option.some.inj (hr.symm.trans ((h₄.records id).symm.trans hr'))
    simp only
    rw [request, wp_bind]
    refine wp_dynamo_faulty rfl (fun msg => hsame) ⟨fun i hi => ⟨?_, h₄.others i hi⟩, .inr ⟨r, now, hr, ?_⟩⟩
    · exact (AList.lookup_insert_ne hi).trans (h₄.records i)
    · have hstored : (w₄.store.jobs.lookup id).getD { id := id, state := .cancelled } = r := by
        rw [hr']
        rfl
      refine (AList.lookup_insert _).trans ?_
      rw [hstored]
      rfl

/-- What a Push leaves of every job before it stores its own: each is as it was,
but the one that the policy replaces. -/
def LeavesJob (cfg : Config) (o : Op) (w w' : World) (id : String) : Prop :=
  SameJob id w w' ∨ o.cancels cfg w id ∧ CancelledOrSame id w w'

theorem LeavesJob.same {o : Op} {w'' : World} (h : LeavesJob cfg o w w' id) (h' : SameJob id w' w'') :
    LeavesJob cfg o w w'' id := by
  rcases h with h | ⟨hc, h | ⟨r, now, hr, h⟩⟩
  · exact .inl (h.trans h')
  · exact .inr ⟨hc, .inl (h'.record.trans h)⟩
  · exact .inr ⟨hc, .inr ⟨r, now, hr, h'.record.trans h⟩⟩

/-- No job has come to be. -/
theorem LeavesJob.absent {o : Op} (h : LeavesJob cfg o w w' id)
    (hr : w.store.jobs.lookup id = none) : w'.store.jobs.lookup id = none := by
  rcases h with h | ⟨-, h | ⟨r, now, hr', -⟩⟩
  · exact h.record.trans hr
  · exact h.trans hr
  · rw [hr] at hr'
    cases hr'

theorem CancelsOnly.leaves {policy : UniquePolicy} {job : Job} {item : UniqueItem} {r : JobRecord}
    (hu : job.unique = some policy) (hrep : conflictOf policy = "replace")
    (hk : w.store.uniqueKeys.lookup (computeFingerprint cfg policy job) = some item)
    (hr : w.store.jobs.lookup item.jobID = some r) (hrel : isRelevant policy r.state = true)
    (h : CancelsOnly item.jobID w w') (i : String) : LeavesJob cfg (.push job) w w' i := by
  by_cases hi : i = item.jobID
  · subst hi
    exact .inr ⟨⟨policy, item, r, hu, hrep, hk, rfl, hr, hrel⟩, h.job⟩
  · exact .inl (h.others i hi)

theorem findExisting_leaves (hown : OwnHandles w) {policy : UniquePolicy} {job : Job}
    (hu : job.unique = some policy) :
    wp ρ.env.every (findExisting cfg policy (computeFingerprint cfg policy job))
      (fun _ w' => ∀ i, LeavesJob cfg (.push job) w w' i) w := by
  have hrefl : ∀ i, LeavesJob cfg (.push job) w w i := fun i => .inl (.refl i w)
  rw [findExisting, wp_bind, getUniqueKey, wp_bind]
  refine wp_dynamo_faulty rfl (fun msg => hrefl) ?_
  cases hk : w.store.uniqueKeys.lookup (computeFingerprint cfg policy job) with
  | none =>
    simp only [Store.run, hk]
    exact hrefl
  | some item =>
    simp only [Store.run, hk, wp_pure, wp_ite]
    split
    · exact hrefl
    · rw [resolveConflict, wp_bind]
      refine wp_getJob_any (fun e => hrefl) fun r hr => ?_
      simp only [wp_ite, wp_pure, wp_bind]
      split
      · rename_i hrel
        split
        · exact hrefl
        · split
          · exact hrefl
          · split
            · rename_i hrep
              refine wp_mono (Env.every_mono _) _ (cancel_only hown) fun a w' h => ?_
              have hleaves := h.leaves hu hrep hk hr hrel
              cases a with
              | error e =>
                simp only [wp_ite, wp_pure]
                split <;> exact hleaves
              | ok _ => exact hleaves
            · exact hrefl
      · exact hrefl

/-- The Push goes on only where nobody held the key. -/
theorem pushUnique_leaves (hown : OwnHandles w) {policy : UniquePolicy} {job : Job}
    (hu : job.unique = some policy) :
    wp ρ.env.every (pushUnique cfg policy job) (fun a w' =>
      (∀ i, LeavesJob cfg (.push job) w w' i) ∧
      (a = .ok none → w.store.uniqueKeys.lookup (computeFingerprint cfg policy job) = none)) w := by
  rw [pushUnique, wp_bind]
  have hfind : wp ρ.env.every (findExisting cfg policy (computeFingerprint cfg policy job))
      (fun _ w' => (∀ i, LeavesJob cfg (.push job) w w' i) ∧
        w'.store.uniqueKeys = w.store.uniqueKeys) w :=
    (wp_iff_runs _ _ _ _).mpr fun a w' hr =>
      ⟨(wp_iff_runs _ _ _ _).mp (findExisting_leaves hown hu) a w' hr,
        (wp_iff_runs _ _ _ _).mp (wp_findExisting_keys policy _) a w' hr⟩
  refine wp_mono (Env.every_mono _) _ hfind ?_
  rintro a w₁ ⟨hleaves, hkeys⟩
  rcases a with e | _ | existing
  · exact ⟨hleaves, fun h => by cases h⟩
  rotate_left
  · exact ⟨hleaves, fun h => by cases h⟩
  · simp only
    have hclock : ∀ t i, LeavesJob cfg (.push job) w (w₁.setClock t) i := fun t i =>
      (hleaves i).same ⟨rfl, rfl⟩
    rw [wp_bind, claimUniqueKey, wp_bind, setUniqueKey, wp_bind]
    refine wp_timeNow fun t _ => ?_
    rw [request, wp_bind]
    refine wp_dynamo_faulty rfl (fun msg => ?_) ?_
    · exact ⟨hclock t, fun h => by cases h⟩
    · cases hk : w₁.store.uniqueKeys.lookup (computeFingerprint cfg policy job) with
      | some item =>
        have hk' : (w₁.setClock t).store.uniqueKeys.lookup (computeFingerprint cfg policy job) =
            some item := hk
        simp only [Store.run, hk']
        exact ⟨hclock t, fun h => by cases h⟩
      | none =>
        have hk' : (w₁.setClock t).store.uniqueKeys.lookup (computeFingerprint cfg policy job) =
            none := hk
        simp only [Store.run, hk']
        exact ⟨fun i => (hclock t i).same ⟨rfl, rfl⟩, fun _ => hkeys ▸ hk⟩

end

/-! ## Putting a record -/

/-- The guard: a record is put only where none is stored. -/
def PutsNew (w : World) : Call → Prop
  | .dynamo (.putJobItem r) => w.store.jobs.lookup r.id = none
  | _ => True

theorem putsNew_of_none {c : Call} (w : World) (hc : c.putsNone = true) : PutsNew w c := by
  cases c with
  | dynamo d => cases d <;> trivial
  | sqs c => trivial
  | proc c => trivial

/-- **No job is damaged**: whatever the answers, no record is put over a stored
one, be it stored before or by the operation itself, and afterwards the record
and the messages of every job that was stored are as they were, but for the one
the policy replaces, which may be cancelled. -/
def DamagesNone (cfg : Config) (ρ : Rules) (w : World) (o : Op) : Prop :=
  wp ((ρ.reserving o.newIDs).env.guarded PutsNew) (o.prog cfg)
    (fun _ w' => ∀ id, (w.store.jobs.lookup id).isSome → LeavesJob cfg o w w' id) w

/-- The identifiers are new, or nothing is stored: a Push whose unique key is
held, a batch without jobs or with one that is not valid. -/
def StoresNew (cfg : Config) (w : World) : Op → Prop
  | .push job => (Op.push job).Fresh w ∨ ∃ policy, job.unique = some policy ∧
      (w.store.uniqueKeys.lookup (computeFingerprint cfg policy job)).isSome
  | .pushBatch jobs => (Op.pushBatch jobs).Fresh w ∨ jobs = [] ∨ (validateBatch cfg jobs).isSome
  | _ => True

section
variable {cfg : Config} {ρ : Rules} {w w' : World}

/-- A put of a record that is not stored spares the other jobs. -/
theorem guarded_putJob {r : JobRecord} {Q : Except Error Unit → World → Prop}
    (hnew : w.store.jobs.lookup r.id = none)
    (h : ∀ a w', (∀ id, id ≠ r.id → SameJob id w w') → Q a w') :
    wp (ρ.env.guarded PutsNew) (putJob r) Q w := by
  rw [putJob, request, wp_bind]
  refine ⟨hnew, fun a w' he => ?_⟩
  have hput : ∀ id, id ≠ r.id → SameJob id w w' := fun id hid =>
    Rules.env_sparesJob (c := .dynamo (.putJobItem r)) (fun he => hid he.symm) he
  cases a with
  | error e => exact h _ w' hput
  | ok u => exact h _ w' hput

/-- A job for which no record is stored is put, and the others are spared. -/
theorem pushNew_spares (now : Time) {job : Job} (hnew : w.store.jobs.lookup job.id = none) :
    wp (ρ.env.guarded PutsNew) (pushNew cfg now job)
      (fun _ w' => ∀ id, id ≠ job.id → SameJob id w w') w := by
  let P : Call → Prop := fun c => c.putsNone = true ∧ ∀ id, id ≠ job.id → c.sparesJob id
  obtain ⟨s, t, rest, -, he, -, hrest⟩ := pushNew_stores (P := P) cfg now job
    (fun _ => ⟨rfl, fun _ _ => trivial⟩) ⟨rfl, fun _ _ => trivial⟩
    (only_queueURL cfg _ ⟨rfl, fun _ _ => trivial⟩ (fun _ => ⟨rfl, fun _ _ => trivial⟩)
      (fun _ => ⟨rfl, fun _ _ => trivial⟩) fun _ => ⟨rfl, fun _ _ => trivial⟩)
    fun _ _ _ => ⟨rfl, fun _ hne he => hne he.symm⟩
  have hI : ∀ c w₁, P c → (∀ id, id ≠ job.id → SameJob id w w₁) →
      PutsNew w₁ c ∧ ∀ r w₂, ρ.env c w₁ r w₂ → ∀ id, id ≠ job.id → SameJob id w w₂ :=
    fun c w₁ hc h => ⟨putsNew_of_none w₁ hc.1, fun r w₂ he id hid =>
      (h id hid).trans (Rules.env_sparesJob (hc.2 id hid) he)⟩
  rw [he, wp_bind]
  exact guarded_putJob hnew fun a w₁ hput => (hrest a).guarded_keeps hI hput

/-- The unique part of a Push puts no record. -/
theorem putsNone_pushUnique (policy : UniquePolicy) (job : Job) :
    (pushUnique cfg policy job).Only (·.putsNone = true) := by
  have hapart : Apart cfg { rewrite := fun _ _ => True } (pushUnique cfg policy job) :=
    apart_pushUnique fun _ _ => trivial
  refine hapart.mono fun c hc => ?_
  cases c with
  | dynamo d => cases d <;> first | rfl | exact hc.1.elim
  | sqs c => rfl
  | proc c => rfl

theorem pushAssigned_spares (now : Time) {job : Job} (hown : OwnHandles w)
    (hsafe : w.store.jobs.lookup job.id = none ∨ ∃ policy, job.unique = some policy ∧
      (w.store.uniqueKeys.lookup (computeFingerprint cfg policy job)).isSome) :
    wp (ρ.env.guarded PutsNew) (pushAssigned cfg now job)
      (fun _ w' => ∀ id, (w.store.jobs.lookup id).isSome → LeavesJob cfg (.push job) w w' id) w := by
  rw [pushAssigned]
  cases hu : job.unique with
  | none =>
    have hnew : w.store.jobs.lookup job.id = none := hsafe.resolve_right fun h => by
      obtain ⟨_, hp, -⟩ := h
      rw [hu] at hp
      cases hp
    refine wp_mono (Env.guarded_mono _ _) _ (pushNew_spares now hnew) fun a w' h id hid => ?_
    refine .inl (h id fun he => ?_)
    rw [he, hnew] at hid
    cases hid
  | some policy =>
    simp only
    rw [wp_bind]
    refine (putsNone_pushUnique policy job).guarded (fun c w hc => putsNew_of_none w hc) ?_
    refine wp_mono (Env.every_mono _) _ (pushUnique_leaves hown hu) ?_
    rintro a w₁ ⟨hleaves, hfree⟩
    rcases a with e | _ | existing
    · exact fun id _ => hleaves id
    rotate_left
    · exact fun id _ => hleaves id
    · have hnew : w.store.jobs.lookup job.id = none := hsafe.resolve_right fun h => by
        obtain ⟨_, hp, hk⟩ := h
        cases hu.symm.trans hp
        rw [hfree rfl] at hk
        cases hk
      have hnew₁ : w₁.store.jobs.lookup job.id = none := (hleaves job.id).absent hnew
      have hspares : wp (ρ.env.guarded PutsNew) (pushNew cfg now (sortUniqueKeys policy job))
          (fun _ w' => ∀ id, id ≠ job.id → SameJob id w₁ w') w₁ := pushNew_spares now hnew₁
      refine wp_mono (Env.guarded_mono _ _) _ hspares fun a w' h id hid => ?_
      refine (hleaves id).same (h id fun he => ?_)
      rw [he, hnew] at hid
      cases hid

theorem push_spares {job : Job} (hown : OwnHandles w) (hsafe : StoresNew cfg w (.push job)) :
    DamagesNone cfg ρ w (.push job) := by
  have hnow : ∀ (c : Call) w, c.isAside = true → PutsNew w c := fun c w hc => by
    cases c with
    | dynamo d => cases hc
    | sqs c => trivial
    | proc c => trivial
  have hassigned : ∀ t i, (i = job.id ∨ w.store.jobs.lookup i = none) →
      (i = job.id → job.id ≠ "") →
      wp ((ρ.reserving (Op.push job).newIDs).env.guarded PutsNew)
        (pushAssigned cfg t (assigned cfg t i job)) (fun _ w' => ∀ id,
          (w.store.jobs.lookup id).isSome → LeavesJob cfg (.push job) w w' id) (w.setClock t) := by
    intro t i hi hne
    have hsafe : w.store.jobs.lookup i = none ∨ ∃ policy, job.unique = some policy ∧
        (w.store.uniqueKeys.lookup (computeFingerprint cfg policy job)).isSome := by
      refine hsafe.imp_left fun hfresh => ?_
      rcases hi with rfl | hi
      · refine hfresh.2 job.id ?_
        exact List.mem_filter.mpr ⟨List.mem_singleton_self _, decide_eq_true (hne rfl)⟩
      · exact hi
    have hown : OwnHandles (w.setClock t) := hown
    refine wp_mono (Env.guarded_mono _ _) _ (pushAssigned_spares t hown hsafe) fun a w' h id hid => ?_
    rcases h id hid with h | ⟨hc, h⟩
    · exact .inl ⟨h.record, h.messages⟩
    · exact .inr ⟨hc, h⟩
  rw [DamagesNone]
  change wp _ (push cfg job) _ w
  rw [push_eq, wp_bind]
  refine only_timeNow.guarded hnow (wp_timeNow fun t _ => ?_)
  rw [wp_bind, assignID]
  split
  · rename_i hempty
    refine ⟨trivial, ?_⟩
    refine wp_newUUIDv7 fun i hne hi _ => hassigned t i (.inr hi) fun he => absurd (he.trans hempty) hne
  · rename_i hne
    exact hassigned t job.id (.inl rfl) fun _ => hne

/-- The jobs that were stored in `w` are as they were. -/
def SparesStored (w w' : World) : Prop := ∀ id, (w.store.jobs.lookup id).isSome → SameJob id w w'

/-- A call that puts no record and spares all stored jobs. -/
def Call.sparesStored (w : World) (c : Call) : Prop :=
  c.putsNone = true ∧ ∀ id, (w.store.jobs.lookup id).isSome → c.sparesJob id

theorem guarded_sparesStored {α : Type} {p : M α} {w₁ : World} (hp : p.Only (Call.sparesStored w))
    (h : SparesStored w w₁) :
    wp (ρ.env.guarded PutsNew) p (fun _ w' => SparesStored w w') w₁ :=
  hp.guarded_keeps (fun _ w₁ hc h => ⟨putsNew_of_none w₁ hc.1, fun _ _ he id hid =>
    (h id hid).trans (Rules.env_sparesJob (hc.2 id hid) he)⟩) h

theorem sparesStored_queueURL (queue : String) :
    (getOrCreateQueueURL cfg queue).Only (Call.sparesStored w) :=
  only_queueURL cfg _ ⟨rfl, fun _ _ => trivial⟩ (fun _ => ⟨rfl, fun _ _ => trivial⟩)
    (fun _ => ⟨rfl, fun _ _ => trivial⟩) fun _ => ⟨rfl, fun _ _ => trivial⟩

theorem storeBatch_spares (now : Time) (jobs : List Job) {w₁ : World} {done : List Job}
    (h : SparesStored w w₁) (hs : Storable ρ w₁ jobs)
    (hdone : ∀ job ∈ done, w.store.jobs.lookup job.id = none) :
    wp (ρ.env.guarded PutsNew) (storeBatch cfg now jobs done) (fun a w' => SparesStored w w' ∧
      ∀ stored, a = .ok stored → ∀ job ∈ stored, w.store.jobs.lookup job.id = none) w₁ := by
  induction jobs generalizing w₁ done with
  | nil => exact ⟨h, fun stored he => by cases he; exact hdone⟩
  | cons job jobs ih =>
    have hassign : (assignID job).Only (·.putsNone = true) := by
      rw [assignID]
      split
      · exact Prog.only_perform rfl
      · exact Prog.only_pure _
    rw [storeBatch, wp_bind]
    refine hassign.guarded (fun c w hc => putsNew_of_none w hc) ?_
    refine wp_assignID (hs.fresh job List.mem_cons_self) fun i hi hres hne => ?_
    have habsent : w.store.jobs.lookup i = none := by
      cases hr : w.store.jobs.lookup i with
      | none => rfl
      | some r =>
        have hsame := (h i (Option.isSome_iff_exists.mpr ⟨r, hr⟩)).record
        rw [hi, hr] at hsame
        cases hsame
    simp only
    rw [wp_bind]
    refine guarded_putJob (r := jobToRecord _) hi fun a w₂ hothers => ?_
    have hput : SparesStored w w₂ := fun id hid => by
      refine (h id hid).trans (hothers id fun he => ?_)
      rw [show id = i from he, habsent] at hid
      cases hid
    cases a with
    | error e => exact ⟨hput, fun _ h => by cases h⟩
    | ok u =>
      simp only
      rw [wp_bind]
      let I : World → Prop := fun w' =>
        SparesStored w w' ∧ ∀ j, w'.store.jobs.lookup j = w₂.store.jobs.lookup j
      have hregister : wp (ρ.env.guarded PutsNew) (registerQueue job.queue) (fun _ => I) w₂ := by
        have honly : (registerQueue job.queue).Only fun c =>
            c.sparesStored w ∧ c.writesJob = none :=
          only_registerQueue ⟨⟨rfl, fun _ _ => trivial⟩, rfl⟩
        refine honly.guarded_keeps (I := I) (fun c w₁ hc hi => ⟨putsNew_of_none w₁ hc.1.1,
          fun _ _ he => ⟨fun id hid => ?_, fun j => ?_⟩⟩) ⟨hput, fun _ => rfl⟩
        · exact (hi.1 id hid).trans (Rules.env_sparesJob (hc.1.2 id hid) he)
        · exact (Rules.env_jobs hc.2 he j).trans (hi.2 j)
      refine wp_mono (Env.guarded_mono _ _) _ hregister ?_
      rintro b w₃ ⟨h₃, hsame⟩
      cases b with
      | error e => exact ⟨h₃, fun _ h => by cases h⟩
      | ok u =>
        have hstorable : Storable ρ w₃ jobs :=
          hs.tail hres hne fun j hj => (hsame j).trans (hothers j hj).record
        refine ih h₃ hstorable fun job' hj => ?_
        rcases List.mem_append.mp hj with hj | hj
        · exact hdone job' hj
        · rw [List.mem_singleton.mp hj]
          exact habsent

theorem pushBatch_spares {jobs : List Job} (hsafe : StoresNew cfg w (.pushBatch jobs)) :
    DamagesNone cfg ρ w (.pushBatch jobs) := by
  have hrefl : ∀ id, LeavesJob cfg (.pushBatch jobs) w w id := fun id => .inl (.refl id w)
  rw [DamagesNone]
  change wp _ (pushBatch cfg jobs) _ w
  rw [pushBatch, wp_ite]
  split
  · exact fun id _ => hrefl id
  · rename_i hne
    cases hv : validateBatch cfg jobs with
    | some e => exact fun id _ => hrefl id
    | none =>
      have hfresh : (Op.pushBatch jobs).Fresh w := by
        rcases hsafe with hfresh | rfl | hinvalid
        · exact hfresh
        · exact absurd rfl hne
        · rw [hv] at hinvalid
          cases hinvalid
      have hstorable : ∀ t, Storable (ρ.reserving (Op.pushBatch jobs).newIDs) (w.setClock t) jobs := by
        have hmem : ∀ job ∈ jobs, job.id ≠ "" → job.id ∈ (Op.pushBatch jobs).newIDs :=
          fun job hj hid => List.mem_filter.mpr ⟨List.mem_map_of_mem hj, decide_eq_true hid⟩
        intro t
        refine ⟨hfresh.1, fun job hj => ?_, hmem⟩
        by_cases hid : job.id = ""
        · exact .inl hid
        · exact .inr (hfresh.2 job.id (hmem job hj hid))
      simp only
      rw [wp_bind]
      refine only_timeNow.guarded (fun c w hc => ?_) (wp_timeNow fun t _ => ?_)
      · cases c with
        | dynamo d => cases hc
        | sqs c => trivial
        | proc c => trivial
      · rw [wp_bind]
        have hclock : SparesStored w (w.setClock t) := fun id _ => ⟨rfl, rfl⟩
        refine wp_mono (Env.guarded_mono _ _) _ (storeBatch_spares t jobs hclock (hstorable t)
          fun _ hj => absurd hj List.not_mem_nil) ?_
        rintro a w₁ ⟨h₁, hstored⟩
        cases a with
        | error e => exact fun id hid => .inl (h₁ id hid)
        | ok stored =>
          have hsend : (sendBatchToSQS cfg stored).Only (Call.sparesStored w) := by
            refine Prog.only_bind (Prog.only_perform ⟨rfl, fun _ _ => trivial⟩) fun order => ?_
            refine sendGroups_calls sparesStored_queueURL (fun url entries hin =>
              ⟨rfl, fun id hid m hm he => ?_⟩) order
            have habsent := hstored stored rfl m.body (hin m hm)
            rw [he] at habsent
            rw [habsent] at hid
            cases hid
          simp only
          rw [wp_bind]
          refine wp_mono (Env.guarded_mono _ _) _ (guarded_sparesStored hsend h₁) fun b w₂ h₂ => ?_
          cases b with
          | error e => exact fun id hid => .inl (h₂ id hid)
          | ok u => exact fun id hid => .inl (h₂ id hid)

end

/-! ## Where a record is put over another -/

section
variable {cfg : Config} {ρ : Rules} {w w' : World}

/-- A stretch that comes to an end without failures, and the rest is guarded
still. -/
theorem guarded_after {α β : Type} {p : M α} {f : α → M β} {Q : β → World → Prop}
    {R : α → World → Prop} (h : wp (ρ.env.guarded PutsNew) (p >>= f) Q w)
    (hp : wp ρ.calm.env.every p R w) :
    ∃ a w', R a w' ∧ wp (ρ.env.guarded PutsNew) (f a) Q w' := by
  obtain ⟨a, w', hr⟩ := exists_runs (E := ρ.calm.env) Rules.answers p w
  have hr' : Runs ρ.env p w a w' := hr.mono fun _ _ _ _ => Rules.env_calm
  rw [wp_bind] at h
  exact ⟨a, w', wp_runs hp hr, (wp_iff_runs _ _ _ _).mp (guarded_every h) a w' hr'⟩

theorem guarded_put {β : Type} {r : JobRecord} {f : Except Error Unit → M β} {Q : β → World → Prop}
    (h : wp (ρ.env.guarded PutsNew) (putJob r >>= f) Q w) : w.store.jobs.lookup r.id = none := by
  rw [wp_bind, putJob, request, wp_bind] at h
  exact h.1

theorem guarded_pushNew {now : Time} {job : Job} {Q : Except Error Job → World → Prop}
    (h : wp (ρ.env.guarded PutsNew) (pushNew cfg now job) Q w) :
    w.store.jobs.lookup job.id = none := by
  obtain ⟨s, t, rest, -, he, -, -⟩ := pushNew_stores (P := fun _ => True) cfg now job
    (fun _ => trivial) trivial (only_queueURL cfg _ trivial (fun _ => trivial) (fun _ => trivial)
      fun _ => trivial) fun _ _ _ => trivial
  rw [he] at h
  exact guarded_put h

theorem push_overwrites {job : Job} (h : DamagesNone cfg ρ w (.push job)) :
    StoresNew cfg w (.push job) := by
  by_contra hno
  obtain ⟨hfresh, hheld⟩ := not_or.mp hno
  have hne : job.id ≠ "" := by
    intro he
    have hnone : (Op.push job).newIDs = [] := by
      rw [Op.newIDs]
      exact List.filter_eq_nil_iff.mpr fun id hid hid' => by
        rw [List.mem_singleton.mp hid] at hid'
        exact of_decide_eq_true hid' he
    exact hfresh ⟨by rw [hnone]; exact List.nodup_nil, by rw [hnone]; exact nofun⟩
  have hstored : w.store.jobs.lookup job.id ≠ none := by
    intro hr
    have hone : (Op.push job).newIDs = [job.id] := by
      rw [Op.newIDs]
      exact List.filter_eq_self.mpr fun id hid => by
        rw [List.mem_singleton.mp hid]
        exact decide_eq_true hne
    refine hfresh ⟨by rw [hone]; exact List.nodup_singleton _, fun id hid => ?_⟩
    rw [hone, List.mem_singleton] at hid
    exact hid ▸ hr
  have hfree : ∀ policy, job.unique = some policy →
      w.store.uniqueKeys.lookup (computeFingerprint cfg policy job) = none := by
    intro policy hu
    cases hk : w.store.uniqueKeys.lookup (computeFingerprint cfg policy job) with
    | none => rfl
    | some item => exact absurd ⟨policy, hu, by rw [hk]; rfl⟩ hheld
  have hpush : wp ((ρ.reserving (Op.push job).newIDs).env.guarded PutsNew) (push cfg job) _ w := h
  rw [push_eq] at hpush
  obtain ⟨t, w₁, hw₁, hpush⟩ := guarded_after (R := fun _ w' => w'.store = w.store) hpush
    (wp_timeNow fun t _ => rfl)
  rw [wp_bind, assignID, if_neg hne, wp_pure, pushAssigned] at hpush
  cases hu : job.unique with
  | none =>
    simp only [assigned, hu] at hpush
    have hnew := guarded_pushNew hpush
    rw [hw₁] at hnew
    exact hstored hnew
  | some policy =>
    simp only [assigned, hu] at hpush
    have hkey : w₁.store.uniqueKeys.lookup (computeFingerprint cfg policy
        (assigned cfg t job.id job)) = none := by
      rw [hw₁]
      exact hfree policy hu
    have hjobs : w₁.store.jobs = w.store.jobs := by rw [hw₁]
    simp only [assigned] at hkey
    obtain ⟨a, w₂, ⟨rfl, hw₂⟩, hpush⟩ := guarded_after
      (R := fun a w' => a = .ok none ∧ w'.store.jobs = w.store.jobs) hpush
      (wp_pushUnique_free rfl hkey fun t _ => ⟨rfl, hjobs⟩)
    have hnew := guarded_pushNew hpush
    rw [hw₂] at hnew
    exact hstored hnew

theorem storeBatch_overwrites {now : Time} {jobs done : List Job}
    {Q : Except Error (List Job) → World → Prop}
    (h : wp (ρ.env.guarded PutsNew) (storeBatch cfg now jobs done) Q w) :
    (Op.pushBatch jobs).Fresh w := by
  induction jobs generalizing w done with
  | nil => exact ⟨List.nodup_nil, nofun⟩
  | cons job jobs ih =>
    rw [storeBatch] at h
    have hassign : wp ρ.calm.env.every (assignID job)
        (fun i w' => (job.id ≠ "" → i = job.id) ∧ w'.store = w.store) w := by
      rw [assignID]
      split
      · rename_i he
        exact wp_newUUIDv7 fun i _ _ _ => ⟨fun hne => absurd he hne, rfl⟩
      · exact ⟨fun _ => rfl, rfl⟩
    obtain ⟨i, w₁, ⟨hi, hw₁⟩, h⟩ := guarded_after h hassign
    have hnew : w₁.store.jobs.lookup i = none := guarded_put h
    obtain ⟨a, w₂, ⟨rfl, hw₂⟩, h⟩ := guarded_after
      (R := fun a w' => a = .ok () ∧ ∃ r, w'.store.jobs = w₁.store.jobs.insert i r) h
      (by rw [wp_putJob rfl]; exact ⟨rfl, _, rfl⟩)
    obtain ⟨b, w₃, ⟨rfl, hw₃⟩, h⟩ := guarded_after
      (R := fun b w' => b = .ok () ∧ w'.store.jobs = w₂.store.jobs) h
      (by rw [wp_registerQueue rfl]; exact ⟨rfl, World.registerQueue_jobs _ _⟩)
    obtain ⟨hnodup, hrest⟩ := ih h
    obtain ⟨r, hw₂⟩ := hw₂
    rw [hw₂, hw₁] at hw₃
    rw [hw₁] at hnew
    -- the rest is new next to this job
    have hother : ∀ id ∈ (Op.pushBatch jobs).newIDs, id ≠ i ∧ w.store.jobs.lookup id = none := by
      intro id hid
      have habsent := hrest id hid
      rw [hw₃] at habsent
      have hne : id ≠ i := fun he => by
        rw [he, AList.lookup_insert] at habsent
        cases habsent
      exact ⟨hne, (AList.lookup_insert_ne hne).symm.trans habsent⟩
    by_cases hempty : job.id = ""
    · have hids : (Op.pushBatch (job :: jobs)).newIDs = (Op.pushBatch jobs).newIDs := by
        simp [Op.newIDs, Op.newJobs, hempty]
      exact ⟨hids ▸ hnodup, fun id hid => (hother id (hids ▸ hid)).2⟩
    · have hids : (Op.pushBatch (job :: jobs)).newIDs = job.id :: (Op.pushBatch jobs).newIDs := by
        simp [Op.newIDs, Op.newJobs, hempty]
      obtain rfl := hi hempty
      refine ⟨hids ▸ List.nodup_cons.mpr ⟨fun hin => (hother _ hin).1 rfl, hnodup⟩, fun id hid => ?_⟩
      rw [hids] at hid
      rcases List.mem_cons.mp hid with rfl | hid
      · exact hnew
      · exact (hother id hid).2

theorem pushBatch_overwrites {jobs : List Job} (h : DamagesNone cfg ρ w (.pushBatch jobs)) :
    StoresNew cfg w (.pushBatch jobs) := by
  have hpush : wp ((ρ.reserving (Op.pushBatch jobs).newIDs).env.guarded PutsNew)
    (pushBatch cfg jobs) _ w := h
  rw [pushBatch, wp_ite] at hpush
  split at hpush
  · rename_i hempty
    exact .inr (.inl (List.isEmpty_iff.mp hempty))
  · cases hv : validateBatch cfg jobs with
    | some e => exact .inr (.inr (by rw [hv]; rfl))
    | none =>
      simp only [hv] at hpush
      obtain ⟨t, w₁, hw₁, hpush⟩ := guarded_after (R := fun _ w' => w'.store = w.store) hpush
        (wp_timeNow fun t _ => rfl)
      rw [wp_bind] at hpush
      have hfresh := storeBatch_overwrites hpush
      exact .inl ⟨hfresh.1, fun id hid => by rw [← hw₁]; exact hfresh.2 id hid⟩

/-- **Push and PushBatch damage no job** exactly where the identifiers they are
given are new, or they end before they store anything. -/
theorem enqueue_damages_none {o : Op} (ho : (∃ job, o = .push job) ∨ ∃ jobs, o = .pushBatch jobs)
    (hown : OwnHandles w) : DamagesNone cfg ρ w o ↔ StoresNew cfg w o := by
  rcases ho with ⟨job, rfl⟩ | ⟨jobs, rfl⟩
  · exact ⟨push_overwrites, push_spares hown⟩
  · exact ⟨pushBatch_overwrites, pushBatch_spares⟩

end

/-! ## The identifier of a job that is running -/

/-- A job that a worker has. -/
def busyRecord : JobRecord :=
  { jobToRecord demoJob with state := .active, workerID := "w1", sqsReceiptHandle := some ⟨0, 1⟩ }

/-- The job, and its hidden message. -/
def demoBusy : World where
  store := { jobs := (∅ : Table JobRecord).insert "j1" busyRecord }
  sqs.messages := [⟨0, "ojs-default", some demoJob, none, none, false, 1, some ⟨0, 1⟩⟩]
  sqs.nextMessage := 1

theorem ownHandles_demoBusy : OwnHandles demoBusy := by
  intro id r h hr _ _ m hm _
  have hid : id = "j1" := by
    by_contra hne
    rw [demoBusy, AList.lookup_insert_ne hne] at hr
    cases hr
  rw [List.mem_singleton.mp hm, hid]
  rfl

/-- A Push of another job damages nothing. -/
theorem enqueue_damages_none_other : DamagesNone demo {} demoBusy (.push { demoJob with id := "j2" }) :=
  (enqueue_damages_none (.inl ⟨_, rfl⟩) ownHandles_demoBusy).mpr (.inl (by decide))

/-- A Push with the identifier of a running job makes it available again. -/
theorem push_overwrites_busy : ¬ ∀ (cfg : Config) (ρ : Rules) (w : World) (o : Op),
    ((∃ job, o = .push job) ∨ ∃ jobs, o = .pushBatch jobs) → OwnHandles w →
    DamagesNone cfg ρ w o := by
  intro hall
  have hnone : DamagesNone demo {} demoBusy (.push demoJob) :=
    hall demo {} demoBusy (.push demoJob) (.inl ⟨_, rfl⟩) ownHandles_demoBusy
  have hrun : (script (({} : Rules).reserving ["j1"]).act [.tick 0, .ok, .ok, .ok, .ok, .ok, .ok, .ok]
      (push demo demoJob) demoBusy).map (fun (_, w') => demoState w') = some (some .available) := rfl
  obtain ⟨⟨a, w'⟩, hs, hstate⟩ := Option.map_eq_some_iff.mp hrun
  have hbusy : (demoBusy.store.jobs.lookup "j1").isSome := rfl
  have hleaves := (wp_iff_runs _ _ _ _).mp (guarded_every hnone) a w' (script_runs _ hs) "j1" hbusy
  rcases hleaves with hsame | ⟨⟨policy, _, _, hu, _⟩, _⟩
  · simp only [demoState, hsame.record] at hstate
    cases hstate
  · cases hu

end OjsSqs
