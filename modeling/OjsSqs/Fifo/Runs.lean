import OjsSqs.Atomic.Steps
import OjsSqs.Atomic.Methods
import OjsSqs.Fifo.Window
import OjsSqs.Racing.Ordinary
import OjsSqs.Racing.Promoters
import OjsSqs.System.Pushing

/-! # What reaches the workers of a FIFO queue

Between the sends of an operation nothing happens to the deduplication window.
A send of a job that has left its window is accepted, and leaves the windows of
the other jobs alone. -/
namespace OjsSqs
open Calls

/-! ## Runs -/

/-- The operation sends several messages in one request. -/
def Op.isBatch : Op → Bool
  | .pushBatch _ => true
  | _ => false

/-- One step: an operation that runs alone, or a step of the environment. -/
inductive FifoStep (cfg : Config) (ρ : Rules) : World × Fifo → Label → World × Fifo → Prop
  | op {x x' : World × Fifo} (o : Op) (a : o.Result) : o.isBatch = false → o.done a = true →
      Runs ρ.fifo (o.prog cfg) x a x' → FifoStep cfg ρ x (.op o a) x'
  | move {w w' : World} {F : Fifo} {l : Label} : l.isOp = false → Step cfg ρ w l w' →
      FifoStep cfg ρ (w, F) l (w', F)

/-- The states of all runs whose steps meet the condition `ok`. -/
inductive FifoReachable (cfg : Config) (ρ : Rules) (ok : World × Fifo → Label → Prop) :
    World × Fifo → Prop
  | start (t : Time) : FifoReachable cfg ρ ok (.start t, {})
  | step {x x' : World × Fifo} {l : Label} : FifoReachable cfg ρ ok x → ok x l →
      FifoStep cfg ρ x l x' → FifoReachable cfg ρ ok x'

/-- Every message that was reported as sent has been put into its queue: none
was dropped, and two of the same deduplication id are a window apart. -/
structure AllReceivable (F : Fifo) : Prop where
  dropped : F.dropped = []
  apart : F.accepted.Pairwise fun a b => a.dedup = b.dedup → a.time + dedupWindow ≤ b.time

/-! ## The condition on a step -/

/-- The first instant, from `t` on, that an operation in `w` can see. -/
def Rules.firstFrom (ρ : Rules) (w : World) (t : Time) : Option Time :=
  if t ≤ w.clock then some w.clock else if ρ.timePasses then some t else none

/-- The job has no message in its window at any instant from `t` on at which
an operation can send one. -/
def ForgottenFrom (ρ : Rules) (x : World × Fifo) (id : String) (t : Time) : Prop :=
  ∀ u ∈ ρ.firstFrom x.1 t, x.2.Forgotten id u

instance (ρ : Rules) (x : World × Fifo) (id : String) (t : Time) :
    Decidable (ForgottenFrom ρ x id t) :=
  inferInstanceAs (Decidable (∀ u ∈ ρ.firstFrom x.1 t, x.2.Forgotten id u))

theorem ForgottenFrom.clear {ρ : Rules} {x : World × Fifo} {id : String} {t u : Time}
    (h : ForgottenFrom ρ x id t) (hu : ρ.mayShow x.1 u) (ht : t ≤ u) : x.2.Forgotten id u := by
  by_cases hle : t ≤ x.1.clock
  · exact (h x.1.clock (by rw [Rules.firstFrom, if_pos hle]; rfl)).mono hu.1
  · by_cases hp : ρ.timePasses = true
    · exact (h t (by rw [Rules.firstFrom, if_neg hle, if_pos hp]; rfl)).mono ht
    · rw [hu.2 (Bool.not_eq_true _ ▸ hp)] at ht
      exact absurd ht hle

/-- Every job an operation may send has no message in its window by then: the
pushed job unless its identifier is new, the jobs whose markers are due, the
job of the dead letter set. -/
def SendsApart (cfg : Config) (ρ : Rules) (x : World × Fifo) : Label → Prop
  | .op (.push job) _ => job.id ≠ "" →
    ForgottenFrom ρ x job.id ((futureInstant cfg x.1.clock job).getD x.1.clock)
  | .op .promoteScheduled _ =>
    ∀ e ∈ (x.1.store.due .scheduled).entries, ForgottenFrom ρ x e.1 (e.2 * 1000000)
  | .op .promoteRetries _ =>
    ∀ e ∈ (x.1.store.due .retry).entries, ForgottenFrom ρ x e.1 (e.2 * 1000000)
  | .op (.retryDeadLetter id) _ =>
    (x.1.store.deadLetters.lookup id).isSome → ForgottenFrom ρ x id x.1.clock
  | _ => True

/-- What every step keeps: nothing has been dropped, the jobs that were sent are
stored under their identifiers, and there is no workflow. -/
structure Spaced (x : World × Fifo) : Prop where
  receivable : AllReceivable x.2
  stored : ∀ s ∈ x.2.accepted, (x.1.store.jobs.lookup s.dedup).isSome
  named : x.1.NamedJobs
  workflows : x.1.store.workflows = ∅

/-- From `x` to `x'` only the jobs `ids` have been sent. -/
structure Sent (ρ : Rules) (ids : List String) (x x' : World × Fifo) : Prop where
  shows : ρ.mayShow x.1 x'.1.clock
  stored : ∀ id, (x.1.store.jobs.lookup id).isSome → (x'.1.store.jobs.lookup id).isSome
  others : ∀ id t, id ∉ ids → x.2.Forgotten id t → x'.2.Forgotten id t
  spaced : Spaced x'

section
variable {ρ : Rules} {x y z : World × Fifo} {ids ids' : List String}

theorem Sent.refl (h : Spaced x) : Sent ρ [] x x where
  shows := ⟨le_refl _, fun _ => rfl⟩
  stored _ hs := hs
  others _ _ _ hc := hc
  spaced := h

theorem Sent.trans (h : Sent ρ ids x y) (h' : Sent ρ ids' y z) : Sent ρ (ids ++ ids') x z where
  shows := Rules.mayShow_trans h.shows h'.shows
  stored id hs := h'.stored id (h.stored id hs)
  others id t hid hc := by
    rw [List.mem_append, not_or] at hid
    exact h'.others id t hid.2 (h.others id t hid.1 hc)
  spaced := h'.spaced

/-- A job that is not stored has never been sent. -/
theorem Spaced.clear_of_new (h : Spaced x) {id : String} (hid : x.1.store.jobs.lookup id = none)
    (t : Time) : x.2.Forgotten id t := fun s hs hd => by
  have hst := h.stored s hs
  rw [hd, hid] at hst
  cases hst

end

/-! ## Calls that send nothing -/

/-- The call sends no message and writes no workflow. -/
def Call.sendsNothing : Call → Prop
  | .sqs (.sendMessage _ _) | .sqs (.sendMessageBatch _ _) => False
  | c => c.writesWorkflow = none

theorem Call.sendsNothing_of_ordinary {c : Call} (h : c.ordinary = true) : c.sendsNothing := by
  cases c with
  | dynamo d => cases d <;> first | rfl | cases h
  | sqs c => cases c <;> first | rfl | cases h
  | proc c => rfl

theorem deduplicate_of_sendsNothing {c : Call} (h : c.sendsNothing) (a : Answer c) (w w' : World)
    (F : Fifo) : deduplicate c a w w' F = (w', F) := by
  refine deduplicate_of_not_send ?_ a w w' F
  cases c with
  | sqs c => cases c <;> first | rfl | exact h.elim
  | _ => rfl

section
variable {ρ : Rules} {x x' : World × Fifo} {w : World} {F : Fifo}

theorem Call.sendsNothing.writesNone {c : Call} (h : c.sendsNothing) : c.writesWorkflow = none := by
  cases c with
  | sqs c => rfl
  | dynamo d => exact h
  | proc c => rfl

/-- One call that sends nothing. -/
theorem Sent.call {c : Call} {a : Answer c} (hc : c.sendsNothing) (h : Spaced x)
    (he : ρ.fifo c x a x') : Sent ρ [] x x' := by
  obtain ⟨w', ha, rfl⟩ := filterAct_env.mp he
  rw [deduplicate_of_sendsNothing hc]
  have hstored : ∀ id, (x.1.store.jobs.lookup id).isSome → (w'.store.jobs.lookup id).isSome :=
    fun _ => Rules.env_stored ha
  exact ⟨Rules.env_shows ha, hstored, fun _ _ _ h => h,
    ⟨h.receivable, fun s hs => hstored _ (h.stored s hs), Rules.env_named ha h.named,
      (Rules.env_workflowTable hc.writesNone ha).trans h.workflows⟩⟩

/-- A stretch of an operation that sends nothing. -/
theorem fifo_sendsNothing {α : Type} {p : M α} (hp : p.Only Call.sendsNothing) (h : Spaced x) :
    wp ρ.fifo.every p (fun _ x' => Sent ρ [] x x') x :=
  hp.keeps (Sent ρ [] x) (fun _ _ _ _ hc hs he => hs.trans (.call hc hs.spaced he)) (.refl h)

theorem fifo_ordinary {α : Type} {p : M α} (hp : Ordinary p) (h : Spaced x) :
    wp ρ.fifo.every p (fun _ x' => Sent ρ [] x x') x :=
  fifo_sendsNothing (hp.mono fun _ => Call.sendsNothing_of_ordinary) h

/-- Such a stretch does what it does without the filter. -/
theorem fifo_of_env {α : Type} {p : M α} {Q : α → World × Fifo → Prop}
    (hp : p.Only Call.sendsNothing) (h : wp ρ.env.every p (fun a w' => Q a (w', F)) w) :
    wp ρ.fifo.every p Q (w, F) :=
  wp_filter_only hp (fun _ a w w' F hc => deduplicate_of_sendsNothing hc a w w' F) h

theorem fifo_of_ordinary {α : Type} {p : M α} {Q : α → World × Fifo → Prop} (hp : Ordinary p)
    (h : wp ρ.env.every p (fun a w' => Q a (w', F)) w) : wp ρ.fifo.every p Q (w, F) :=
  fifo_of_env (hp.mono fun _ => Call.sendsNothing_of_ordinary) h

/-! ## A send -/

/-- The queue takes a message of a job that has left its window. -/
theorem Spaced.accept {w' : World} {url : String} {m : OutMessage} {id : String}
    (h : Spaced (w, F)) (hst : (w.store.jobs.lookup id).isSome) (hforgotten : F.Forgotten id w.clock)
    (hm : ∀ d, m.deduplicationID = some d → d = id) (hw' : w'.store = w.store)
    (hclock : w'.clock = w.clock) : Sent ρ [id] (w, F) (w', F.accept w.clock url m) := by
  have hshows : ρ.mayShow w w'.clock := ⟨le_of_eq hclock.symm, fun _ => hclock⟩
  have hstored : ∀ id, (w.store.jobs.lookup id).isSome → (w'.store.jobs.lookup id).isSome :=
    fun _ hs => hw'.symm ▸ hs
  have hnamed : w'.NamedJobs := fun i r hr => h.named i r (hw' ▸ hr)
  have hwf : w'.store.workflows = ∅ := hw'.symm ▸ h.workflows
  rw [Fifo.accept]
  cases hd : m.deduplicationID with
  | none => exact ⟨hshows, hstored, fun _ _ _ hc => hc, h.receivable,
      fun s hs => hstored _ (h.stored s hs), hnamed, hwf⟩
  | some d =>
    obtain rfl := hm d hd
    refine ⟨hshows, hstored, fun i t hi hc s hs hid => ?_,
      ⟨h.receivable.dropped, List.pairwise_append.mpr ⟨h.receivable.apart,
        List.pairwise_singleton _ _, fun s hs b hb hid => ?_⟩⟩, fun s hs => ?_, hnamed, hwf⟩
    · rcases List.mem_append.mp hs with hs | hs
      · exact hc s hs hid
      · rw [List.mem_singleton.mp hs] at hid
        exact absurd (List.mem_singleton.mpr hid.symm) hi
    · rw [List.mem_singleton.mp hb] at hid ⊢
      exact hforgotten s hs hid
    · rcases List.mem_append.mp hs with hs | hs
      · exact hstored _ (h.stored s hs)
      · rw [List.mem_singleton.mp hs]
        exact hstored _ hst

variable {cfg : Config} (hρ : ρ.faults = false)
include hρ

/-- A job that is stored and has left its window is sent. -/
theorem fifo_sendToSQS {job : Job} (h : Spaced x) (hst : (x.1.store.jobs.lookup job.id).isSome)
    (hforgotten : x.2.Forgotten job.id x.1.clock) :
    wp ρ.fifo.every (sendToSQS cfg job) (fun _ x' => Sent ρ [job.id] x x') x := by
  rw [sendToSQS, wp_bind]
  have hquiet : ∀ {x' : World × Fifo}, Sent ρ [] x x' → Sent ρ [job.id] x x' := fun hs =>
    ⟨hs.shows, hs.stored, fun i t _ hc => hs.others i t List.not_mem_nil hc, hs.spaced⟩
  refine wp_mono (Env.every_mono _) _
    (fifo_ordinary (ordinary_getOrCreateQueueURL cfg job.queue) h) fun a x₁ hs₁ => ?_
  split
  · exact hquiet hs₁
  · split
    · exact hquiet hs₁
    · rename_i url _ body _
      rw [wp_bind]
      intro a x₂ he
      obtain ⟨w', ha, rfl⟩ := filterAct_env.mp he
      obtain ⟨messageID, rfl⟩ := Rules.env_sqs_ok hρ ha
      have hforgotten₁ : x₁.2.Forgotten job.id x₁.1.clock :=
        (hs₁.others _ _ List.not_mem_nil hforgotten).mono hs₁.shows.1
      have hstore : w'.store = x₁.1.store := Rules.env_aside (fun _ hd => by cases hd) ha
      have hclock : w'.clock = x₁.1.clock := by
        obtain ⟨_, _, _, _, rfl⟩ := Rules.env_sqs ha
        rfl
      have hm : ∀ d, (outMessage cfg job body).deduplicationID = some d → d = job.id := by
        intro d hd
        rw [outMessage] at hd
        simp only at hd
        split at hd <;> cases hd
        rfl
      have hsend : Sent ρ [job.id] x₁ (w', x₁.2.accept x₁.1.clock url (outMessage cfg job body)) :=
        Spaced.accept (w := x₁.1) hs₁.spaced (hs₁.stored _ hst) hforgotten₁ hm hstore hclock
      have hkeep : deduplicate (.sqs (.sendMessage url (outMessage cfg job body)))
          (Except.ok messageID) x₁.1 w' x₁.2 =
          (w', x₁.2.accept x₁.1.clock url (outMessage cfg job body)) := by
        rw [deduplicate, hforgotten₁.not_repeats hm]
        rfl
      rw [hkeep]
      exact hs₁.trans hsend

/-! ## The promoters -/

/-- A read of a job. -/
theorem fifo_getJob {id : String} {Q : Except Error JobRecord → World × Fifo → Prop}
    (hsome : ∀ r, x.1.store.jobs.lookup id = some r → Q (.ok r) x)
    (hnone : x.1.store.jobs.lookup id = none → ∀ e, Q (.error e) x) :
    wp ρ.fifo.every (getJob id) Q x := by
  refine fifo_of_ordinary (ordinary_getJob id) ?_
  cases hr : x.1.store.jobs.lookup id with
  | none =>
    rw [wp_getJob_none hρ hr]
    exact hnone hr _
  | some r =>
    rw [wp_getJob_some hρ hr]
    exact hsome r hr

/-- A job that is due is sent, if it is stored. -/
theorem fifo_promoteOne {index : DueIndex} {id : String} (h : Spaced x)
    (hforgotten : x.2.Forgotten id x.1.clock) :
    wp ρ.fifo.every (promoteOne cfg index id) (fun _ x' => Sent ρ [id] x x') x := by
  have hquiet : ∀ {x' : World × Fifo}, Sent ρ [] x x' → Sent ρ [id] x x' := fun hs =>
    ⟨hs.shows, hs.stored, fun i t _ hc => hs.others i t List.not_mem_nil hc, hs.spaced⟩
  rw [promoteOne, wp_bind]
  refine fifo_getJob hρ (fun r hr => ?_) fun _ e => hquiet (.refl h)
  simp only
  rw [wp_bind]
  refine wp_mono (Env.every_mono _) _
    (fifo_ordinary (ordinary_request (c := .deleteDueItem index id) rfl) h) fun a x₁ hs₁ => ?_
  split
  · exact hquiet hs₁
  · rw [wp_bind]
    refine wp_mono (Env.every_mono _) _ (fifo_ordinary ordinary_timeNow hs₁.spaced)
      fun now x₂ hs₂ => ?_
    rw [wp_bind]
    refine wp_mono (Env.every_mono _) _ (fifo_ordinary (ordinary_updateJobState id _ _) hs₂.spaced)
      fun a x₃ hs₃ => ?_
    have hs : Sent ρ [] x x₃ := (hs₁.trans hs₂).trans hs₃
    split
    · exact hquiet hs
    · have hid : (promotedJob cfg now r).id = id := h.named id r hr
      have hst : (x₃.1.store.jobs.lookup (promotedJob cfg now r).id).isSome := by
        rw [hid]
        exact hs.stored id (by rw [hr]; rfl)
      have hforgotten₃ : x₃.2.Forgotten (promotedJob cfg now r).id x₃.1.clock := by
        rw [hid]
        exact (hs.others id _ List.not_mem_nil hforgotten).mono hs.shows.1
      rw [wp_bind]
      refine wp_mono (Env.every_mono _) _ (fifo_sendToSQS hρ hs.spaced hst hforgotten₃)
        fun a x₄ hs₄ => ?_
      rw [hid] at hs₄
      split <;> exact hs.trans hs₄

theorem fifo_promoteAll {index : DueIndex} (ids : List String) (err : Option Error)
    (h : Spaced x) (hnodup : ids.Nodup) (hforgotten : ∀ id ∈ ids, x.2.Forgotten id x.1.clock) :
    wp ρ.fifo.every (promoteAll cfg index ids err) (fun _ x' => Sent ρ ids x x') x := by
  induction ids generalizing x err with
  | nil => exact .refl h
  | cons id ids ih =>
    obtain ⟨hnew, hnodup⟩ := List.nodup_cons.mp hnodup
    rw [promoteAll, wp_bind]
    refine wp_mono (Env.every_mono _) _
      (fifo_promoteOne hρ h (hforgotten id List.mem_cons_self)) fun e x₁ hs₁ => ?_
    have hforgotten₁ : ∀ k ∈ ids, x₁.2.Forgotten k x₁.1.clock := fun k hk => by
      have hne : k ∉ [id] := fun hki => hnew (List.mem_singleton.mp hki ▸ hk)
      exact (hs₁.others k _ hne (hforgotten k (List.mem_cons_of_mem _ hk))).mono hs₁.shows.1
    exact wp_mono (Env.every_mono _) _ (ih _ hs₁.spaced hnodup hforgotten₁) fun _ x₂ hs₂ =>
      hs₁.trans hs₂

/-- A promoter sends jobs whose markers are due. -/
theorem fifo_promote {index : DueIndex} (h : Spaced x)
    (hforgotten : ∀ e ∈ (x.1.store.due index).entries, ForgottenFrom ρ x e.1 (e.2 * 1000000)) :
    wp ρ.fifo.every (promote cfg index) (fun _ x' => Spaced x') x := by
  rw [promote, wp_bind]
  refine fifo_of_ordinary ordinary_timeNow (wp_timeNow fun t ht => ?_)
  rw [wp_bind]
  have hx : Spaced (x.1.setClock t, x.2) := ⟨h.receivable, h.stored, h.named, h.workflows⟩
  refine fifo_of_ordinary (ordinary_getDueJobs index _) (wp_getDueJobs hρ fun ids hpage => ?_)
  obtain ⟨hnodup, hall⟩ := Bool.and_eq_true_iff.mp hpage
  refine wp_mono (Env.every_mono _) _ (fifo_promoteAll hρ ids none hx (of_decide_eq_true hnodup)
    fun id hid => ?_) fun _ x' hs => hs.spaced
  have hdue := List.all_eq_true.mp hall id hid
  rw [Store.isDue] at hdue
  split at hdue
  · rename_i at' hmark
    have hentry : (⟨id, at'⟩ : Sigma fun _ : String => Int) ∈ (x.1.store.due index).entries :=
      AList.mem_lookup_iff.mp hmark
    refine (hforgotten _ hentry).clear ht ?_
    have hle : at' ≤ t / 1000000 := of_decide_eq_true hdue
    show at' * 1000000 ≤ t
    exact (Int.le_ediv_iff_mul_le (by decide)).mp hle
  · cases hdue

/-! ## Push and the dead letter set -/

theorem fifo_putJob {r : JobRecord} (h : Spaced x) : wp ρ.fifo.every (putJob r)
    (fun _ x' => Sent ρ [] x x' ∧ (x'.1.store.jobs.lookup r.id).isSome) x := by
  have hstored : ∀ id, (x.1.store.jobs.lookup id).isSome →
      ((x.1.setJob r.id r).store.jobs.lookup id).isSome := fun id hs => by
    rw [World.setJob]
    by_cases hid : id = r.id
    · rw [hid, AList.lookup_insert]
      rfl
    · rwa [AList.lookup_insert_ne hid]
  refine fifo_of_env (only_request (c := .putJobItem r) rfl) ?_
  refine (wp_putJob hρ _).mpr ⟨⟨⟨le_refl _, fun _ => rfl⟩, hstored, fun _ _ _ hc => hc,
    ⟨h.receivable, fun s hs => hstored _ (h.stored s hs), fun id y hy => ?_, h.workflows⟩⟩,
    by rw [World.setJob, AList.lookup_insert]; rfl⟩
  rw [World.setJob] at hy
  by_cases hid : id = r.id
  · subst hid
    rw [AList.lookup_insert] at hy
    cases hy
    rfl
  · rw [AList.lookup_insert_ne hid] at hy
    exact h.named id y hy

/-- The end of a Push: the job is stored for later, or sent. -/
theorem fifo_pushNew {now : Time} {job : Job} (h : Spaced x)
    (hforgotten : futureInstant cfg now job = none → x.2.Forgotten job.id x.1.clock) :
    wp ρ.fifo.every (pushNew cfg now job) (fun _ x' => Spaced x') x := by
  rw [pushNew]
  cases hf : futureInstant cfg now job with
  | some t =>
    have hp : (pushScheduled cfg now t job).Only Call.sendsNothing := by
      refine Prog.only_bind (only_request (c := .putJobItem _) rfl) fun a => ?_
      split
      · exact Prog.only_pure _
      · refine Prog.only_bind (only_request (c := .putDueItem .scheduled _ _) rfl) fun a => ?_
        split
        · exact Prog.only_pure _
        · refine Prog.only_bind (only_registerQueue rfl) fun a => ?_
          split <;> exact Prog.only_pure _
    exact wp_mono (Env.every_mono _) _ (fifo_sendsNothing hp h) fun _ _ hs => hs.spaced
  | none =>
    simp only
    rw [pushAvailable, wp_bind]
    refine wp_mono (Env.every_mono _) _ (fifo_putJob hρ h) fun a x₁ h₁ => ?_
    obtain ⟨hs₁, hst⟩ := h₁
    split
    · exact hs₁.spaced
    · rw [wp_bind]
      refine wp_mono (Env.every_mono _) _
        (fifo_sendsNothing (only_registerQueue rfl) hs₁.spaced) fun a x₂ hs₂ => ?_
      split
      · exact hs₂.spaced
      · have hs := hs₁.trans hs₂
        rw [wp_bind]
        refine wp_mono (Env.every_mono _) _ (fifo_sendToSQS hρ hs.spaced (hs₂.stored _ hst)
          ((hs.others _ _ List.not_mem_nil (hforgotten hf)).mono hs.shows.1)) fun a x₃ hs₃ => ?_
        split <;> exact hs₃.spaced

omit hρ in
/-- The unique part of a Push sends nothing. -/
theorem fifo_pushUnique {policy : UniquePolicy} {job : Job} (h : Spaced x) :
    wp ρ.fifo.every (pushUnique cfg policy job) (fun _ x' => Sent ρ [] x x') x := by
  have hclaim : (claimUniqueKey cfg policy (computeFingerprint cfg policy job) job.id).Only
      Call.sendsNothing := by
    refine Prog.only_bind ?_ fun a => ?_
    · exact Prog.only_bind (Prog.only_perform rfl) fun _ => only_request (c := .putUniqueItem _ _ _) rfl
    · split
      · split <;> exact Prog.only_pure _
      · exact Prog.only_pure _
  rw [pushUnique, wp_bind]
  refine wp_mono (Env.every_mono _) _ (fifo_ordinary (ordinary_findExisting cfg policy _) h)
    fun a x₁ hs₁ => ?_
  split
  · exact hs₁
  · exact hs₁
  · rw [wp_bind]
    refine wp_mono (Env.every_mono _) _ (fifo_sendsNothing hclaim hs₁.spaced) fun a x₂ hs₂ => ?_
    split <;> exact hs₁.trans hs₂

omit hρ in
/-- A job that no longer lies in the future may have been scheduled. -/
theorem futureInstant_reached {job : Job} {start now : Time} (hle : start ≤ now)
    (hf : futureInstant cfg now job = none) : (futureInstant cfg start job).getD start ≤ now := by
  rw [futureInstant] at hf ⊢
  split
  · exact hle
  · rename_i hne
    rw [if_neg hne] at hf
    cases hp : cfg.parseRFC3339 job.scheduledAt with
    | none => exact hle
    | some t =>
      rw [hp] at hf
      simp only at hf ⊢
      split
      · by_contra hlt
        have hlt : now < t := not_le.mp hlt
        rw [if_pos hlt] at hf
        cases hf
      · exact hle

/-- A Push sends a job that has left its window, or has a new identifier. -/
theorem fifo_push {job : Job} (h : Spaced x) (hforgotten : job.id ≠ "" →
    ForgottenFrom ρ x job.id ((futureInstant cfg x.1.clock job).getD x.1.clock)) :
    wp ρ.fifo.every (push cfg job) (fun _ x' => Spaced x') x := by
  rw [push_eq, wp_bind]
  refine fifo_of_ordinary ordinary_timeNow (wp_timeNow fun now hnow => ?_)
  have hx : Spaced (x.1.setClock now, x.2) := ⟨h.receivable, h.stored, h.named, h.workflows⟩
  -- what follows once the job has its identifier
  have hrest : ∀ id, (futureInstant cfg now job = none → x.2.Forgotten id now) →
      wp ρ.fifo.every (pushAssigned cfg now (assigned cfg now id job)) (fun _ x' => Spaced x')
        (x.1.setClock now, x.2) := fun id hc => by
    rw [pushAssigned]
    cases hu : (assigned cfg now id job).unique with
    | none => exact fifo_pushNew hρ hx hc
    | some policy =>
      simp only
      rw [wp_bind]
      refine wp_mono (Env.every_mono _) _ (fifo_pushUnique hx) fun a x₁ hs₁ => ?_
      split
      · exact hs₁.spaced
      · exact hs₁.spaced
      · exact fifo_pushNew hρ hs₁.spaced fun hf =>
          (hs₁.others id now List.not_mem_nil (hc hf)).mono hs₁.shows.1
  rw [wp_bind, assignID]
  split
  · refine fifo_of_env (Prog.only_perform rfl) (wp_newUUIDv7 fun id _ hnone _ => ?_)
    exact hrest id fun _ => hx.clear_of_new hnone now
  · rename_i hne
    exact hrest job.id fun hf => (hforgotten hne).clear hnow (futureInstant_reached hnow.1 hf)

/-- A retry sends the job it finds in the dead letter set. -/
theorem fifo_retryDeadLetter {id : String} (h : Spaced x)
    (hforgotten : (x.1.store.deadLetters.lookup id).isSome → ForgottenFrom ρ x id x.1.clock) :
    wp ρ.fifo.every (retryDeadLetter cfg id) (fun _ x' => Spaced x') x := by
  rw [retryDeadLetter, wp_bind]
  have hread : Ordinary (isInDeadLetter id) := ordinary_request rfl
  refine fifo_of_ordinary hread ?_
  rw [wp_isInDeadLetter hρ]
  split
  · rename_i hin
    rw [wp_bind]
    refine wp_mono (Env.every_mono _) _ (fifo_ordinary ordinary_timeNow h) fun now x₁ hs₁ => ?_
    rw [wp_bind]
    refine fifo_getJob hρ (fun r hr => ?_) fun _ e => hs₁.spaced
    simp only
    rw [wp_bind]
    refine wp_mono (Env.every_mono _) _
      (fifo_ordinary (ordinary_request (c := .deleteDeadLetterItem id) rfl) hs₁.spaced)
      fun _ x₂ hs₂ => ?_
    rw [wp_bind]
    refine wp_mono (Env.every_mono _) _ (fifo_ordinary (ordinary_updateJobState id _ _) hs₂.spaced)
      fun _ x₃ hs₃ => ?_
    have hs : Sent ρ [] x x₃ := (hs₁.trans hs₂).trans hs₃
    have hid : (deadLetterJob cfg now r).id = id := hs₁.spaced.named id r hr
    have hst : (x₃.1.store.jobs.lookup (deadLetterJob cfg now r).id).isSome := by
      rw [hid]
      exact (hs₂.trans hs₃).stored id (by rw [hr]; rfl)
    have hforgotten₃ : x₃.2.Forgotten (deadLetterJob cfg now r).id x₃.1.clock := by
      rw [hid]
      exact hs.others id _ List.not_mem_nil ((hforgotten hin).clear hs.shows hs.shows.1)
    rw [wp_bind]
    refine wp_mono (Env.every_mono _) _ (fifo_sendToSQS hρ hs.spaced hst hforgotten₃)
      fun _ x₄ hs₄ => ?_
    exact wp_mono (Env.every_mono _) _ (fifo_ordinary (ordinary_info id) hs₄.spaced)
      fun _ _ hs₅ => hs₅.spaced
  · exact h

/-! ## Ack and Nack -/

/-- Without workflows nothing is advanced. -/
theorem fifo_advanceWorkflowOf {id : String} {st : JobState} {result : Option String}
    (h : Spaced x) :
    wp ρ.fifo.every (advanceWorkflowOf cfg id st result) (fun _ x' => Sent ρ [] x x') x := by
  rw [advanceWorkflowOf, wp_bind]
  refine fifo_getJob hρ (fun r _ => ?_) fun _ _ => .refl h
  simp only
  split
  · exact .refl h
  · have hread : Ordinary (getWorkflowRecord r.workflowID) := by
      refine Prog.only_bind (Prog.only_perform rfl) fun a => ?_
      split <;> exact Prog.only_pure _
    have hnone : x.1.store.workflows.lookup r.workflowID = none := by
      rw [h.workflows]
      rfl
    rw [wp_bind, advanceWorkflow, wp_bind]
    refine fifo_of_ordinary hread ?_
    rw [wp_getWorkflowRecord_none hρ hnone]
    exact .refl h

theorem fifo_ack {id : String} {result : Option String} (h : Spaced x) :
    wp ρ.fifo.every (ack cfg id result) (fun _ x' => Spaced x') x := by
  rw [ack, wp_bind]
  refine fifo_getJob hρ (fun r _ => ?_) fun _ _ => h
  simp only
  split
  · exact h
  · rw [wp_bind]
    refine wp_mono (Env.every_mono _) _ (fifo_ordinary (ordinary_nowFormatted cfg) h)
      fun now x₁ hs₁ => ?_
    rw [wp_bind]
    refine wp_mono (Env.every_mono _) _ (fifo_ordinary (ordinary_dropMessage cfg r) hs₁.spaced)
      fun _ x₂ hs₂ => ?_
    rw [wp_bind]
    refine wp_mono (Env.every_mono _) _ (fifo_ordinary (ordinary_updateJobState id _ _) hs₂.spaced)
      fun a x₃ hs₃ => ?_
    split
    · exact hs₃.spaced
    · rw [wp_bind]
      refine wp_mono (Env.every_mono _) _
        (fifo_ordinary (ordinary_request (c := .addCompleted _) rfl) hs₃.spaced) fun _ x₄ hs₄ => ?_
      rw [wp_bind]
      refine wp_mono (Env.every_mono _) _ (fifo_advanceWorkflowOf hρ hs₄.spaced) fun _ x₅ hs₅ => ?_
      rw [wp_bind]
      exact wp_mono (Env.every_mono _) _ (fifo_ordinary (ordinary_info id) hs₅.spaced)
        fun _ _ hs₆ => hs₆.spaced

theorem fifo_nackDiscard {now : Time} {r : JobRecord} {id : String} {e : Option JobError}
    (h : Spaced x) :
    wp ρ.fifo.every (nackDiscard cfg now r id e) (fun _ x' => Spaced x') x := by
  rw [nackDiscard, wp_bind]
  refine wp_mono (Env.every_mono _) _ (fifo_ordinary (ordinary_deleteMessageOf cfg r _ _) h)
    fun a x₁ hs₁ => ?_
  split
  · exact hs₁.spaced
  · rw [wp_bind]
    refine wp_mono (Env.every_mono _) _ (fifo_ordinary (ordinary_updateJobState id _ _) hs₁.spaced)
      fun a x₂ hs₂ => ?_
    split
    · exact hs₂.spaced
    · rw [wp_bind]
      refine wp_mono (Env.every_mono _) _ (fifo_ordinary (ordinary_markDeadLetter _ id) hs₂.spaced)
        fun a x₃ hs₃ => ?_
      split
      · exact hs₃.spaced
      · rw [wp_bind]
        refine wp_mono (Env.every_mono _) _ (fifo_advanceWorkflowOf hρ hs₃.spaced)
          fun _ x₄ hs₄ => ?_
        rw [wp_bind]
        refine wp_mono (Env.every_mono _) _ (fifo_ordinary (ordinary_info id) hs₄.spaced)
          fun a x₅ hs₅ => ?_
        split <;> exact hs₅.spaced

theorem fifo_nack {id : String} {e : Option JobError} {requeue : Bool} (h : Spaced x) :
    wp ρ.fifo.every (nack cfg id e requeue) (fun _ x' => Spaced x') x := by
  have hend : ∀ {α : Type} {p : M α} {x₁ : World × Fifo}, Ordinary p → Spaced x₁ →
      wp ρ.fifo.every p (fun _ x' => Spaced x') x₁ := fun hp h₁ =>
    wp_mono (Env.every_mono _) _ (fifo_ordinary hp h₁) fun _ _ hs => hs.spaced
  rw [nack, wp_bind]
  refine fifo_getJob hρ (fun r _ => ?_) fun _ _ => h
  simp only
  split
  · exact h
  · rw [wp_bind]
    refine wp_mono (Env.every_mono _) _ (fifo_ordinary ordinary_timeNow h) fun now x₁ hs₁ => ?_
    split
    · exact hend (ordinary_nackRequeue cfg now r id) hs₁.spaced
    · split
      · exact fifo_nackDiscard hρ hs₁.spaced
      · exact hend (ordinary_nackRetry cfg now r id e) hs₁.spaced

/-! ## One step, and every run -/

/-- An operation whose sends are apart. -/
theorem fifo_op {o : Op} {a : o.Result} (h : Spaced x) (hb : o.isBatch = false)
    (hok : SendsApart cfg ρ x (.op o a)) :
    wp ρ.fifo.every (o.prog cfg) (fun _ x' => Spaced x') x := by
  have hend : ∀ {α : Type} {p : M α}, Ordinary p → wp ρ.fifo.every p (fun _ x' => Spaced x') x :=
    fun hp => wp_mono (Env.every_mono _) _ (fifo_ordinary hp h) fun _ _ hs => hs.spaced
  cases o with
  | push job => exact fifo_push hρ h hok
  | pushBatch jobs => cases hb
  | fetch fuel queues count worker vis => exact hend (ordinary_fetch cfg fuel queues count worker vis)
  | ack id result => exact fifo_ack hρ h
  | nack id e requeue => exact fifo_nack hρ h
  | cancel id => exact hend (ordinary_cancel cfg id)
  | promoteScheduled => exact fifo_promote hρ h hok
  | promoteRetries => exact fifo_promote hρ h hok
  | retryDeadLetter id => exact fifo_retryDeadLetter hρ h hok
  | deleteDeadLetter id =>
    refine hend (Prog.only_bind (ordinary_request (c := .getDeadLetterItem id) rfl) fun a => ?_)
    split
    · exact ordinary_request (c := .deleteDeadLetterItem id) rfl
    · exact Prog.only_pure _

omit hρ in
/-- The jobs stay as they are. -/
theorem Spaced.move {w' : World} (h : Spaced (w, F)) (hjobs : w'.store.jobs = w.store.jobs)
    (hwf : w'.store.workflows = w.store.workflows) : Spaced (w', F) where
  receivable := h.receivable
  stored s hs := by rw [hjobs]; exact h.stored s hs
  named id r hr := h.named id r (hjobs ▸ hr)
  workflows := hwf.trans h.workflows

theorem fifo_step {l : Label} (h : Spaced x) (hok : SendsApart cfg ρ x l)
    (hs : FifoStep cfg ρ x l x') : Spaced x' := by
  cases hs with
  | op o a hb _ hr => exact wp_runs (fifo_op hρ h hb hok) hr
  | move hl hs =>
    cases hs with
    | op => cases hl
    | expireVisibility id => exact h.move rfl rfl
    | ensureDLQ queue url _ hr =>
      have hstore := wp_runs (wp_aside ((only_ensureDLQ cfg queue url).mono fun _ hc => hc.2)) hr
      exact h.move (congrArg Store.jobs hstore) (congrArg Store.workflows hstore)
    | tick t _ => exact h.move rfl rfl
    | expireKey => exact h.move rfl rfl

/-- **Every run whose sends are apart** loses no message: each that is reported
as sent is put into its queue. -/
theorem fifo_sends_receivable (hr : FifoReachable cfg ρ (SendsApart cfg ρ) x) :
    AllReceivable x.2 := by
  have hspaced : Spaced x := by
    induction hr with
    | start t =>
      exact ⟨⟨rfl, List.Pairwise.nil⟩, fun _ hs => absurd hs List.not_mem_nil,
        fun _ _ hr => (by cases hr), rfl⟩
    | step _ hok hs ih => exact fifo_step hρ ih hok hs
  exact hspaced.receivable

omit hρ

/-! ## A job that is retried -/

instance (x : World × Fifo) : (l : Label) → Decidable (SendsApart cfg ρ x l)
  | .op (.push job) _ => inferInstanceAs (Decidable (job.id ≠ "" →
      ForgottenFrom ρ x job.id ((futureInstant cfg x.1.clock job).getD x.1.clock)))
  | .op .promoteScheduled _ => inferInstanceAs (Decidable
      (∀ e ∈ (x.1.store.due .scheduled).entries, ForgottenFrom ρ x e.1 (e.2 * 1000000)))
  | .op .promoteRetries _ => inferInstanceAs (Decidable
      (∀ e ∈ (x.1.store.due .retry).entries, ForgottenFrom ρ x e.1 (e.2 * 1000000)))
  | .op (.retryDeadLetter id) _ => inferInstanceAs (Decidable
      ((x.1.store.deadLetters.lookup id).isSome → ForgottenFrom ρ x id x.1.clock))
  | .op (.pushBatch _) _ | .op (.fetch _ _ _ _ _) _ | .op (.ack _ _) _ | .op (.nack _ _ _) _
  | .op (.cancel _) _ | .op (.deleteDeadLetter _) _ | .expireVisibility _ | .ensureDLQ _ _
  | .tick _ | .expireKey _ => .isTrue trivial

/-- A step with the choices the environment makes in it. -/
def Act.fifoRun (cfg : Config) (ρ : Rules) : Act → World × Fifo → Option (Label × (World × Fifo))
  | .op o choices, x =>
    if o.isBatch = false then
      match script ρ.fifoAct choices (o.prog cfg) x with
      | some (a, x') => if o.done a then some (.op o a, x') else none
      | none => none
    else none
  | act, x => match act.run cfg ρ x.1 with
    | some (l, w') => if l.isOp = false then some (l, (w', x.2)) else none
    | none => none

theorem Act.fifoRun_step {act : Act} {l : Label} (h : act.fifoRun cfg ρ x = some (l, x')) :
    FifoStep cfg ρ x l x' := by
  have hmove : ∀ {w' : World}, act.run cfg ρ x.1 = some (l, w') → l.isOp = false →
      FifoStep cfg ρ x l (w', x.2) := fun hr hl => .move hl (Act.run_step hr)
  cases act with
  | op o choices =>
    obtain ⟨hb, h⟩ := Option.ite_none_right_eq_some.mp h
    split at h
    · rename_i a x₁ hs
      obtain ⟨hd, h⟩ := Option.ite_none_right_eq_some.mp h
      cases h
      exact .op o a hb hd (script_runs choices hs)
    · cases h
  | _ =>
    simp only [Act.fifoRun] at h
    split at h
    · rename_i hr
      obtain ⟨hl, h⟩ := Option.ite_none_right_eq_some.mp h
      cases h
      exact hmove hr hl
    · cases h

/-- The state after a list of steps that meet the condition. -/
def Act.fifoPlay (cfg : Config) (ρ : Rules) (ok : World × Fifo → Label → Prop)
    [∀ x l, Decidable (ok x l)] : List Act → World × Fifo → Option (World × Fifo)
  | [], x => some x
  | act :: acts, x => match act.fifoRun cfg ρ x with
    | some (l, x') => if ok x l then Act.fifoPlay cfg ρ ok acts x' else none
    | none => none

theorem Act.fifoPlay_reachable {ok : World × Fifo → Label → Prop} [∀ x l, Decidable (ok x l)]
    (acts : List Act) (hx : FifoReachable cfg ρ ok x)
    (h : Act.fifoPlay cfg ρ ok acts x = some x') : FifoReachable cfg ρ ok x' := by
  induction acts generalizing x with
  | nil =>
    cases h
    exact hx
  | cons act acts ih =>
    rw [Act.fifoPlay] at h
    split at h
    · rename_i l x₁ hr
      obtain ⟨hok, h⟩ := Option.ite_none_right_eq_some.mp h
      exact ih (.step hx hok (Act.fifoRun_step hr)) h
    · cases h

end

/-- The demo system with FIFO queues. -/
def fifoDemo : Config := { demo with useFIFO := true }

/-- The pushed job is handed out and fails, and is promoted at the instant. -/
def retryRun (t : Time) : List Act :=
  [pushDemo, fetchDemo, .op (.nack "j1" none false) [.ok, .tick 0, .ok, .ok, .ok, .ok, .ok, .ok],
    .tick t, .op .promoteRetries
      [.tick t, .page ["j1"], .ok, .ok, .tick t, .ok, .ok, .ok, .ok]]

/-- Six minutes after the first send the job comes back. -/
theorem fifo_retry_received : ∃ x, FifoReachable fifoDemo {} (SendsApart fifoDemo {}) x ∧
    AllReceivable x.2 ∧ x.2.accepted.length = 2 ∧ x.1.sqs.messages.length = 1 := by
  have hrun : ∃ x, Act.fifoPlay fifoDemo {} (SendsApart fifoDemo {}) (retryRun (360 * second))
      (.start 0, {}) = some x ∧ x.2.accepted.length = 2 ∧ x.1.sqs.messages.length = 1 :=
    ⟨_, rfl, rfl, rfl⟩
  obtain ⟨x, hplay, hsent, hmsg⟩ := hrun
  have hr := Act.fifoPlay_reachable _ (.start 0) hplay
  exact ⟨x, hr, fifo_sends_receivable rfl hr, hsent, hmsg⟩

/-- A second after the first send the retry is answered and dropped. -/
theorem fifo_drops_retry : ¬ ∀ (cfg : Config) (ρ : Rules) (x : World × Fifo),
    cfg.useFIFO = true → ρ.faults = false → FifoReachable cfg ρ (fun _ _ => True) x →
    AllReceivable x.2 := by
  intro hall
  have hrun : ∃ x, Act.fifoPlay fifoDemo {} (fun _ _ => True) (retryRun second) (.start 0, {}) =
      some x ∧ x.2.dropped.length = 1 := ⟨_, rfl, rfl⟩
  obtain ⟨x, hplay, hdropped⟩ := hrun
  have hx := hall fifoDemo {} x rfl rfl (Act.fifoPlay_reachable _ (.start 0) hplay)
  rw [hx.dropped] at hdropped
  cases hdropped

end OjsSqs
