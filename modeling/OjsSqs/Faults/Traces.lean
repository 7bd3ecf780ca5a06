import OjsSqs.Atomic.Steps
import OjsSqs.Faults.Notes
import OjsSqs.Lifecycle.Invariant

/-! # Pushes that fail

A Push writes in five places: the unique key, the record, the marker, the
queue and the message. Nothing is taken back when a later write fails, so a
Push that returns an error leaves no trace of its job only when the first of
its writes is the one that failed, or when the key was taken before. -/
namespace OjsSqs
open Calls

/-- What a Push leaves to the caller's memory: the identifier of the job, the
last call that failed, and the handles whose messages were deleted. -/
structure Attempt where
  id : String
  failed : Option Call := none
  deleted : List (String × Receipt) := []

/-- A new identifier is noted, and so is a deleted message. -/
def Attempt.made : (c : Call) → Answer c → Attempt → Attempt
  | .proc .newUUIDv7, id, g => { g with id := id }
  | .sqs (.deleteMessage url h), _, g => { g with deleted := g.deleted ++ [(url, h)] }
  | _, _, g => g

def Attempt.note : Note World Call Answer Attempt := fun c r _ _ g =>
  if callFailed c r then { g with failed := some c } else g.made c r

/-- The calls of a Push, with what is noted of them. -/
def Rules.attempting (ρ : Rules) : Env (World × Attempt) Call Answer := ρ.env.withGhost Attempt.note

/-- Nothing in the store or in a queue has the identifier, apart from messages
that one of the handles names. -/
structure UntracedBut (deleted : List (String × Receipt)) (id : String) (w : World) : Prop where
  record : w.store.jobs.lookup id = none
  key : ∀ fp item, w.store.uniqueKeys.lookup fp = some item → item.jobID ≠ id
  marker : (w.store.due .scheduled).lookup id = none
  message : ∀ m ∈ w.sqs.messagesOf id, ∃ x ∈ deleted, m.queueURL = x.1 ∧ m.receipt = some x.2

/-- No record, no unique key, no marker and no message has the identifier. -/
abbrev Untraced (id : String) (w : World) : Prop := UntracedBut [] id w

/-- The call that failed is the first write of the Push, or there was nothing
for it to take; and the identifier had no trace before. -/
def FailsClean (cfg : Config) (job : Job) (w : World) (g : Attempt) : Prop :=
  UntracedBut g.deleted g.id w ∧ match job.unique with
    | none => ∃ r, g.failed = some (.dynamo (.putJobItem r))
    | some policy => (w.store.uniqueKeys.lookup (computeFingerprint cfg policy job)).isSome ∨
        ∃ fp id ttl, g.failed = some (.dynamo (.putUniqueItem fp id ttl))

/-! ## Traces stay -/

/-- A trace that no call removes: the record, or a key. -/
def Traced (id : String) (w : World) : Prop :=
  (w.store.jobs.lookup id).isSome ∨
    ∃ fp item, w.store.uniqueKeys.lookup fp = some item ∧ item.jobID = id

theorem Traced.not_untraced {ds : List (String × Receipt)} {id : String} {w : World}
    (h : Traced id w) : ¬ UntracedBut ds id w := by
  intro hu
  rcases h with h | ⟨fp, item, hi, hid⟩
  · rw [hu.record] at h
    cases h
  · exact hu.key fp item hi hid

section
variable {ρ : Rules} {w w' : World} {id : String}

/-- A key that is taken stays taken. -/
theorem Rules.env_keyStays {c : Call} {r : Answer c} {fp : String} {item : UniqueItem}
    (h : ρ.env c w r w') (hk : w.store.uniqueKeys.lookup fp = some item) :
    w'.store.uniqueKeys.lookup fp = some item := by
  refine (Rules.env_frame (fun s => s.uniqueKeys.lookup fp) (fun d hd => ?_) h).trans hk
  subst hd
  cases d with
  | putUniqueItem fp' id ttl =>
    simp only [Store.run]
    cases hk' : w.store.uniqueKeys.lookup fp' with
    | some item => rfl
    | none =>
      refine AList.lookup_insert_ne fun heq => ?_
      rw [← heq, hk] at hk'
      cases hk'
  | _ => simp only [Store.run] <;> (try split) <;> rfl

theorem Traced.call {c : Call} {r : Answer c} (ht : Traced id w) (h : ρ.env c w r w') :
    Traced id w' := by
  rcases ht with ht | ⟨fp, item, hk, hid⟩
  · exact .inl (Rules.env_stored h ht)
  · exact .inr ⟨fp, item, Rules.env_keyStays h hk, hid⟩

/-- The job is traced, and no call of the kind `K` is the one that failed. -/
structure Stuck (K : Call → Prop) (id : String) (x : World × Attempt) : Prop where
  job : x.2.id = id
  traced : Traced id x.1
  failed : ∀ c, x.2.failed = some c → ¬ K c

/-- Once it is, it stays so, as long as no such call is made. -/
theorem Stuck.keeps {K : Call → Prop} {α : Type} {p : M α} {x : World × Attempt}
    (hp : p.Only fun c => ¬ K c ∧ c ≠ .proc .newUUIDv7) (h : Stuck K id x) :
    wp ρ.attempting.every p (fun _ => Stuck K id) x := by
  refine hp.keeps (Stuck K id) (fun c x r x' hc hi he => ?_) h
  obtain ⟨he, hg⟩ := he
  refine ⟨?_, hi.traced.call he, ?_⟩
  · rw [hg, Attempt.note]
    split
    · exact hi.job
    · rw [← hi.job]
      cases c with
      | dynamo d => rfl
      | sqs c => cases c <;> rfl
      | proc c =>
        cases c <;> first | rfl | exact absurd rfl hc.2
  · intro c' hc'
    rw [hg, Attempt.note] at hc'
    split at hc'
    · cases hc'
      exact hc.1
    · refine hi.failed c' (hc'.symm.trans ?_).symm
      cases c with
      | dynamo d => rfl
      | sqs c => cases c <;> rfl
      | proc c => cases c <;> rfl

end

/-! ## The holder of the key -/

/-- A call that cancelling the job `h` makes. -/
def Call.cancels (h : String) : Call → Prop
  | .dynamo (.getJobItem _) => True
  | .dynamo (.updateJobItem id _ _ _ _) | .dynamo (.deleteDueItem _ id) => id = h
  | .dynamo _ => False
  | .sqs (.createQueue _) | .sqs (.deleteMessage _ _) => True
  | .sqs _ => False
  | .proc .newUUIDv7 => False
  | .proc _ => True

section
variable (cfg : Config) {h : String}

theorem only_cancel : (cancel cfg h).Only (Call.cancels h) := by
  refine Prog.only_bind (only_getJob trivial) fun a => ?_
  split
  · exact Prog.only_pure _
  · split
    · exact Prog.only_pure _
    · refine Prog.only_bind (Prog.only_bind (Prog.only_perform trivial) fun _ =>
        Prog.only_pure _) fun now => ?_
      have hdrop : ∀ r, (dropMessage cfg r).Only (Call.cancels h) := by
        intro r
        rw [dropMessage]
        split
        · exact Prog.only_pure _
        · refine Prog.only_bind ?_ fun a => ?_
          · refine Prog.only_bind (Prog.only_perform trivial) fun a => ?_
            split
            · exact Prog.only_pure _
            · refine Prog.only_bind (Prog.only_perform trivial) fun a => ?_
              split
              · exact Prog.only_pure _
              · refine Prog.only_bind (Prog.only_perform trivial) fun _ => ?_
                exact Prog.only_bind (Prog.only_perform trivial) fun _ => Prog.only_pure _
          · split
            · exact Prog.only_pure _
            · exact Prog.only_bind (Prog.only_perform trivial) fun _ => Prog.only_pure _
      refine Prog.only_bind (hdrop _) fun _ => ?_
      refine Prog.only_bind (only_request (c := .deleteDueItem .scheduled h) rfl) fun _ => ?_
      refine Prog.only_bind (only_request (c := .deleteDueItem .retry h) rfl) fun _ => ?_
      refine Prog.only_bind (Prog.only_bind (only_getJob trivial) fun a => ?_) fun _ =>
        Prog.only_pure _
      split
      · exact Prog.only_pure _
      · exact only_request (c := .updateJobItem h _ _ _ _) rfl

theorem only_resolveConflict (policy : UniquePolicy) (fp : String) :
    (resolveConflict cfg policy fp h).Only (Call.cancels h) := by
  refine Prog.only_bind (only_getJob trivial) fun a => ?_
  split
  · exact Prog.only_pure _
  · split
    · split
      · exact Prog.only_pure _
      · split
        · exact Prog.only_pure _
        · split
          · refine Prog.only_bind (only_cancel cfg) fun a => ?_
            split
            · split <;> exact Prog.only_pure _
            · exact Prog.only_pure _
          · exact Prog.only_pure _
    · exact Prog.only_pure _

end

/-- The world `w` still, as far as the traces of the job `id` go, apart from the
messages that were deleted. -/
structure Spared (id : String) (w : World) (x : World × Attempt) : Prop where
  record : x.1.store.jobs.lookup id = w.store.jobs.lookup id
  marker : (x.1.store.due .scheduled).lookup id = (w.store.due .scheduled).lookup id
  message : ∀ m, m ∈ x.1.sqs.messagesOf id ↔ m ∈ w.sqs.messagesOf id ∧
    ¬ ∃ d ∈ x.2.deleted, m.queueURL = d.1 ∧ m.receipt = some d.2

/-- What the search for the key's holder keeps. -/
structure Searched (id : String) (w : World) (x : World × Attempt) : Prop where
  job : x.2.id = id
  keys : x.1.store.uniqueKeys = w.store.uniqueKeys
  failed : ∀ fp i ttl, x.2.failed ≠ some (.dynamo (.putUniqueItem fp i ttl))

section
variable {ρ : Rules} {w : World} {id h : String} {x x' : World × Attempt}

theorem Searched.call {c : Call} {r : Answer c} (hc : c.cancels h) (hs : Searched id w x)
    (he : ρ.attempting c x r x') : Searched id w x' := by
  obtain ⟨he, hg⟩ := he
  refine ⟨?_, ?_, ?_⟩
  · rw [hg, Attempt.note]
    split
    · exact hs.job
    · rw [← hs.job]
      cases c with
      | dynamo d => rfl
      | sqs c => cases c <;> rfl
      | proc c => cases c <;> first | rfl | exact hc.elim
  · refine (Rules.env_frame (fun s => s.uniqueKeys) (fun d hd => ?_) he).trans hs.keys
    subst hd
    cases d <;> first | rfl | exact hc.elim
  · intro fp i ttl hf
    rw [hg, Attempt.note] at hf
    split at hf
    · cases hf
      exact hc
    · refine hs.failed fp i ttl (Eq.trans ?_ hf)
      cases c with
      | dynamo d => rfl
      | sqs c => cases c <;> rfl
      | proc c => cases c <;> rfl

theorem Spared.call {c : Call} {r : Answer c} (hc : c.cancels h) (hne : h ≠ id)
    (hs : Spared id w x) (he : ρ.attempting c x r x') : Spared id w x' := by
  obtain ⟨he, hg⟩ := he
  refine ⟨?_, ?_, ?_⟩
  · refine (Rules.env_job (fun hw => ?_) he).trans hs.record
    cases c with
    | dynamo d =>
      cases d with
      | updateJobItem i s us sk pk => exact hne ((show i = h from hc).symm.trans (Option.some.inj hw))
      | _ => first | exact hc.elim | cases hw
    | sqs c => cases hw
    | proc c => cases hw
  · refine (Rules.env_frame (fun s => (s.due .scheduled).lookup id) (fun d hd => ?_) he).trans
      hs.marker
    subst hd
    cases d with
    | deleteDueItem i j =>
      obtain rfl : j = h := hc
      cases i with
      | scheduled => exact AList.lookup_erase_ne (Ne.symm hne)
      | retry => rfl
    | _ => first | rfl | exact hc.elim
  · have hkeep : x'.1.sqs.messagesOf id = x.1.sqs.messagesOf id → x'.2.deleted = x.2.deleted →
        ∀ m, m ∈ x'.1.sqs.messagesOf id ↔ m ∈ w.sqs.messagesOf id ∧
          ¬ ∃ d ∈ x'.2.deleted, m.queueURL = d.1 ∧ m.receipt = some d.2 := by
      intro hm hd
      rw [hm, hd]
      exact hs.message
    cases c with
    | dynamo d =>
      obtain ⟨_, _, -, -, hx⟩ := Rules.env_dynamo he
      refine hkeep (by rw [hx]; rfl) ?_
      rw [hg, Attempt.note]
      split <;> rfl
    | proc c =>
      refine hkeep (by rw [Rules.env_proc_sqs he]) ?_
      rw [hg, Attempt.note]
      split
      · rfl
      · cases c <;> rfl
    | sqs c =>
      have hb : ∀ url entries, c ≠ .sendMessageBatch url entries := by
        rintro url entries rfl
        exact hc
      have hrecv : c.isReceive = false := by cases c <;> first | rfl | exact hc.elim
      rcases Rules.env_sqs_cases hrecv hb he with ⟨msg, rfl, hx⟩ | ⟨rfl, hx⟩
      · refine hkeep (by rw [hx]) ?_
        rw [hg, Attempt.note]
        rfl
      · cases c with
        | createQueue name =>
          refine hkeep (by rw [hx]; exact SqsState.createQueue_messagesOf _ _) ?_
          rw [hg, Attempt.note]
          rfl
        | deleteMessage url handle =>
          intro m
          have hd : x'.2.deleted = x.2.deleted ++ [(url, handle)] := by
            rw [hg, Attempt.note]
            rfl
          rw [hx, World.setSqs, SqsCall.run, SqsState.delete_eq, SqsState.messagesOf_filter,
            List.mem_filter, hs.message, hd]
          simp only [decide_eq_true_eq, List.mem_append, List.mem_singleton]
          constructor
          · rintro ⟨⟨hm, hnot⟩, hne⟩
            refine ⟨hm, ?_⟩
            rintro ⟨d, hd | rfl, hmd⟩
            · exact hnot ⟨d, hd, hmd⟩
            · exact hne hmd
          · rintro ⟨hm, hnot⟩
            refine ⟨⟨hm, ?_⟩, fun hmd => hnot ⟨_, .inr rfl, hmd⟩⟩
            rintro ⟨d, hd, hmd⟩
            exact hnot ⟨d, .inl hd, hmd⟩
        | _ => exact hc.elim

end

/-! ## The parts of a Push -/

/-- What has to be said of a failed Push of `job` that began in `w`. -/
def Verdict (cfg : Config) (job : Job) (w : World) (a : Except Error Job) (x : World × Attempt) :
    Prop :=
  ∀ e, a = .error e → (Untraced x.2.id x.1 ↔ FailsClean cfg job w x.2)

/-- The state after the search for the holder of the key `fp`. -/
structure Looked (fp id : String) (w : World) (x : World × Attempt) : Prop where
  searched : Searched id w x
  spared : (∀ item, w.store.uniqueKeys.lookup fp = some item → item.jobID ≠ id) → Spared id w x

section
variable {cfg : Config} {ρ : Rules} {w : World} {id fp : String} {x : World × Attempt}

theorem Looked.start {g : Attempt} (hid : g.id = id) (hd : g.deleted = [])
    (hf : ∀ fp i ttl, g.failed ≠ some (.dynamo (.putUniqueItem fp i ttl))) :
    Looked fp id w (w, g) := by
  refine ⟨⟨hid, rfl, hf⟩, fun _ => ⟨rfl, rfl, fun m => ?_⟩⟩
  rw [hd]
  exact (and_iff_left fun ⟨_, hmem, _⟩ => List.not_mem_nil hmem).symm

/-- After the search the job is traced as before. -/
theorem Looked.untraced (hx : Looked fp id w x) :
    Untraced id x.1 ↔ UntracedBut x.2.deleted id w := by
  by_cases hheld : ∃ item, w.store.uniqueKeys.lookup fp = some item ∧ item.jobID = id
  · obtain ⟨item, hi, hid⟩ := hheld
    have ht : Traced id x.1 := .inr ⟨fp, item, hx.searched.keys ▸ hi, hid⟩
    have ht' : Traced id w := .inr ⟨fp, item, hi, hid⟩
    exact iff_of_false ht.not_untraced ht'.not_untraced
  · have hs := hx.spared fun item hi hid => hheld ⟨item, hi, hid⟩
    constructor
    · intro hu
      refine ⟨hs.record ▸ hu.record, hx.searched.keys ▸ hu.key, hs.marker ▸ hu.marker,
        fun m hm => by_contra fun hnot => ?_⟩
      obtain ⟨d, hd, -⟩ := hu.message m ((hs.message m).mpr ⟨hm, hnot⟩)
      cases hd
    · intro hu
      refine ⟨hs.record.trans hu.record, hx.searched.keys.symm ▸ hu.key,
        hs.marker.trans hu.marker, fun m hm => ?_⟩
      obtain ⟨hm, hnot⟩ := (hs.message m).mp hm
      exact absurd (hu.message m hm) hnot

/-- The search: when nobody has the key, nobody is found. -/
theorem attempting_findExisting {policy : UniquePolicy} {g : Attempt} (hid : g.id = id)
    (hd : g.deleted = []) (hf : g.failed = none) :
    wp ρ.attempting.every (findExisting cfg policy fp) (fun a x => Looked fp id w x ∧
      (w.store.uniqueKeys.lookup fp = none → a = .ok none)) (w, g) := by
  rw [findExisting, wp_bind, getUniqueKey, wp_bind]
  refine wp_ghost (wp_dynamo_faulty rfl (fun msg => ?_) ?_)
  · refine ⟨.start hid hd fun fp i ttl h => ?_, fun _ => rfl⟩
    cases Option.some.inj h
  · have hstart : Looked fp id w (w, g) := .start hid hd fun fp i ttl h => by
      rw [hf] at h
      cases h
    simp only [Store.run, World.setStore_store]
    cases hk : w.store.uniqueKeys.lookup fp with
    | none => exact ⟨hstart, fun _ => rfl⟩
    | some item =>
      simp only [wp_pure, wp_ite]
      split
      · exact ⟨hstart, fun _ => trivial⟩
      · refine (wp_mono (Env.every_mono _) _ ((only_resolveConflict cfg policy fp).keeps
          (fun x => Searched id w x ∧ (item.jobID ≠ id → Spared id w x))
          (fun c x r x' hc hi he => ⟨hi.1.call hc he, fun hne => (hi.2 hne).call hc hne he⟩)
          ⟨hstart.searched, fun hne => hstart.spared fun item' hi' => ?_⟩) ?_)
        · rw [← Option.some.inj (hk.symm.trans hi')]
          exact hne
        · exact fun a x hx => ⟨⟨hx.1, fun hall => hx.2 (hall item hk)⟩, fun h => by cases h⟩

theorem Looked.clock (hx : Looked fp id w x) (t : Time) : Looked fp id w (x.1.setClock t, x.2) :=
  ⟨⟨hx.searched.job, hx.searched.keys, hx.searched.failed⟩, fun hall =>
    ⟨(hx.spared hall).record, (hx.spared hall).marker, (hx.spared hall).message⟩⟩

/-- A Push takes the key after the search, and it is refused when the key was
taken before. -/
theorem attempting_claimUniqueKey {policy : UniquePolicy} (hx : Looked fp id w x)
    {Q : Except Error Unit → World × Attempt → Prop}
    (herr : ∀ e x, x.2.id = id → (Untraced id x.1 ↔ UntracedBut x.2.deleted id w) →
      ((w.store.uniqueKeys.lookup fp).isSome ∨
        ∃ fp i ttl, x.2.failed = some (.dynamo (.putUniqueItem fp i ttl))) → Q (.error e) x)
    (htaken : ∀ x, w.store.uniqueKeys.lookup fp = none →
      Stuck (fun c => c.takesKey.isSome) id x → Q (.ok ()) x) :
    wp ρ.attempting.every (claimUniqueKey cfg policy fp id) Q x := by
  obtain ⟨w', g⟩ := x
  rw [claimUniqueKey, wp_bind, setUniqueKey, wp_bind]
  refine wp_ghost (wp_timeNow fun t _ => ?_)
  have hx := hx.clock t
  rw [request, wp_bind]
  refine wp_ghost (wp_dynamo_faulty rfl (fun msg => ?_) ?_)
  · simp only [wp_pure]
    refine herr _ _ hx.searched.job hx.untraced (.inr ⟨_, _, _, rfl⟩)
  · simp only [Store.run, World.setStore, World.setClock]
    have hkeys : w'.store.uniqueKeys = w.store.uniqueKeys := hx.searched.keys
    rw [hkeys]
    cases hk : w.store.uniqueKeys.lookup fp with
    | some item =>
      refine herr _ _ hx.searched.job hx.untraced (.inl (by rw [hk]; rfl))
    | none =>
      refine htaken _ hk ⟨hx.searched.job, .inr ⟨fp, _, AList.lookup_insert _, rfl⟩, ?_⟩
      intro c hc hK
      cases c with
      | dynamo d =>
        cases d with
        | putUniqueItem fp i ttl => exact hx.searched.failed fp i ttl hc
        | _ => cases hK
      | sqs c => cases hK
      | proc c => cases hK

/-- The unique part of a Push. Either the key has been taken just now, or it was
not to be had, or the write of it failed. -/
theorem attempting_pushUnique {policy : UniquePolicy} {job : Job} {g : Attempt}
    {Q : Except Error (Option Job) → World × Attempt → Prop}
    (hid : g.id = job.id) (hd : g.deleted = []) (hf : g.failed = none)
    (herr : ∀ e x, x.2.id = job.id → (Untraced job.id x.1 ↔ UntracedBut x.2.deleted job.id w) →
      ((w.store.uniqueKeys.lookup (computeFingerprint cfg policy job)).isSome ∨
        ∃ fp i ttl, x.2.failed = some (.dynamo (.putUniqueItem fp i ttl))) → Q (.error e) x)
    (hexisting : ∀ j x, Q (.ok (some j)) x)
    (htaken : ∀ x, w.store.uniqueKeys.lookup (computeFingerprint cfg policy job) = none →
      Stuck (fun c => c.takesKey.isSome) job.id x → Q (.ok none) x) :
    wp ρ.attempting.every (pushUnique cfg policy job) Q (w, g) := by
  rw [pushUnique, wp_bind]
  refine wp_mono (Env.every_mono _) _ (attempting_findExisting hid hd hf) fun a x ⟨hx, hfree⟩ => ?_
  cases a with
  | error e =>
    refine herr e x hx.searched.job hx.untraced (.inl (Option.isSome_iff_ne_none.mpr fun hn => ?_))
    cases hfree hn
  | ok found =>
    cases found with
    | some j => exact hexisting j x
    | none =>
      simp only
      rw [wp_bind]
      exact attempting_claimUniqueKey hx (fun e x hid hu hc => herr e x hid hu hc) htaken

/-- A call that makes no trace that stays. -/
def Call.enqueues (c : Call) : Prop :=
  c.writesJob = none ∧ c.takesKey = none ∧ c ≠ .proc .newUUIDv7

theorem Call.enqueues_of_isAside {c : Call} (h : c.isAside = true) : c.enqueues := by
  cases c with
  | dynamo d => cases h
  | sqs c => exact ⟨rfl, rfl, fun hc => by cases hc⟩
  | proc c => exact ⟨rfl, rfl, fun hc => by cases hc; cases h⟩

/-- The record is written first, and nothing after it takes a trace back. -/
theorem attempting_pushNew {job : Job} {g : Attempt} {w' : World} (now : Time) (hid : g.id = job.id)
    (hf : g.failed = none) {Q : Except Error Job → World × Attempt → Prop}
    (hfail : ∀ e r, Q (.error e) (w', { g with failed := some (.dynamo (.putJobItem r)) }))
    (hstored : ∀ a x, Stuck (fun c => c.writesJob.isSome) job.id x → Q a x) :
    wp ρ.attempting.every (pushNew cfg now job) Q (w', g) := by
  obtain ⟨s, t, rest, -, he, herr, hrest⟩ := pushNew_stores (P := Call.enqueues) cfg now job
    (fun _ => ⟨rfl, rfl, fun h => by cases h⟩) ⟨rfl, rfl, fun h => by cases h⟩
    ((only_getOrCreateQueueURL cfg _).mono fun _ => Call.enqueues_of_isAside)
    fun _ _ _ => ⟨rfl, rfl, fun h => by cases h⟩
  rw [he, wp_bind, putJob, request, wp_bind]
  refine wp_ghost (wp_dynamo_faulty rfl (fun msg => ?_) ?_)
  · obtain ⟨e', he'⟩ := herr (failed "failed to put job" (.other msg))
    simp only [wp_pure, he']
    exact hfail e' _
  · have hstuck : Stuck (fun c => c.writesJob.isSome) job.id
        (w'.setStore (w'.store.run (.putJobItem (jobToRecord { job with state := s, enqueuedAt := t }))).2,
          g) := by
      refine ⟨hid, .inl ?_, fun c hc => by rw [hf] at hc; cases hc⟩
      simp [World.setStore, Store.run, jobToRecord]
    have hkept : wp ρ.attempting.every (rest (.ok ())) (fun _ => Stuck (fun c => c.writesJob.isSome) job.id)
        _ := hstuck.keeps ((hrest (.ok ())).mono fun c hc =>
          ⟨fun h => (by rw [hc.1] at h; cases h), hc.2.2⟩)
    have hgoal := wp_mono (Env.every_mono _) _ hkept hstored
    exact hgoal

/-- No key is taken after the unique part. -/
theorem only_pushNew (now : Time) (job : Job) : (pushNew cfg now job).Only fun c =>
    c.takesKey = none ∧ c ≠ .proc .newUUIDv7 :=
  pushNew_calls cfg now job (fun _ _ _ => ⟨rfl, nofun⟩) (fun _ => ⟨rfl, nofun⟩) ⟨rfl, nofun⟩
    ((only_getOrCreateQueueURL cfg _).mono fun _ hc =>
      ⟨(Call.enqueues_of_isAside hc).2.1, (Call.enqueues_of_isAside hc).2.2⟩)
    fun _ _ _ => ⟨rfl, nofun⟩

theorem untraced_clock {ds : List (String × Receipt)} {t : Time} :
    UntracedBut ds id (w.setClock t) ↔ UntracedBut ds id w :=
  ⟨fun h => ⟨h.record, h.key, h.marker, h.message⟩, fun h => ⟨h.record, h.key, h.marker, h.message⟩⟩

/-- The identifier is the client's, or the one that was made. -/
theorem attempting_assignID {job : Job} {w' : World} {Q : String → World × Attempt → Prop}
    (h : ∀ id, Q id (w', { id := id })) :
    wp ρ.attempting.every (assignID job) Q (w', { id := job.id }) := by
  rw [assignID]
  split
  · exact wp_ghost (wp_newUUIDv7 fun id _ _ _ => h id)
  · exact h _

end

/-! ## The outcome -/

/-- **Failed pushes.** A Push that returns an error leaves no trace of its job
if and only if its first write is the one that failed: the record of a job
that is not unique, the key of one that is, or the key was taken. -/
theorem failed_push_leaves_no_trace {cfg : Config} {ρ : Rules} {w w' : World} {job : Job}
    {g : Attempt} {e : Error}
    (hrun : Runs ρ.attempting (push cfg job) (w, { id := job.id }) (.error e) (w', g)) :
    Untraced g.id w' ↔ FailsClean cfg job w g := by
  refine wp_runs (Q := Verdict cfg job w) ?_ hrun e rfl
  rw [push, wp_bind]
  refine wp_ghost (wp_timeNow fun now _ => ?_)
  rw [wp_bind]
  refine attempting_assignID fun id => ?_
  cases hu : job.unique with
  | none =>
    refine attempting_pushNew now rfl rfl (fun e r e' _ => ?_) fun a x hx e' _ => ?_
    · rw [FailsClean, hu, ← untraced_clock (t := now)]
      exact (and_iff_left ⟨r, rfl⟩).symm
    · rw [FailsClean, hu]
      refine iff_of_false (hx.job.symm ▸ hx.traced).not_untraced fun ⟨_, r, hr⟩ => ?_
      exact hx.failed _ hr rfl
  | some policy =>
    simp only
    rw [wp_bind]
    refine attempting_pushUnique (w := w.setClock now) rfl rfl rfl (fun e x hid hut hc => ?_)
      (fun j x _ h => by cases h) fun x hfree hx => ?_
    · intro e' _
      rw [FailsClean, hu, hid, hut, untraced_clock]
      exact (and_iff_left hc).symm
    · refine wp_mono (Env.every_mono _) _ (hx.keeps ((only_pushNew now _).mono fun c hc =>
        ⟨by rw [hc.1]; nofun, hc.2⟩)) fun a x hx e' _ => ?_
      rw [FailsClean, hu]
      refine iff_of_false (hx.job.symm ▸ hx.traced).not_untraced ?_
      rintro ⟨-, hk | ⟨fp, i, ttl, hf⟩⟩
      · have hfree : w.store.uniqueKeys.lookup (computeFingerprint cfg policy job) = none := hfree
        rw [hfree] at hk
        cases hk
      · exact hx.failed _ hf rfl

/-- Nothing is traced where nothing is stored. -/
theorem untraced_empty (id : String) : Untraced id {} where
  record := rfl
  key fp item h := by cases h
  marker := rfl
  message m hm := by cases hm

/-- A Push whose first write is throttled. -/
theorem failed_push_leaves_no_trace_throttled : ∃ (e : Error) (w' : World) (g : Attempt),
    Runs (Rules.attempting { faults := true }) (push demo demoJob) ({}, { id := "j1" }) (.error e)
      (w', g) ∧ Untraced g.id w' := by
  have hrun : ((script (ghostAct (Rules.act { faults := true }) Attempt.note)
      [.tick 0, .fault "throttled"] (push demo demoJob) (({}, { id := "j1" }) : World × Attempt)).map
      fun x => (x.1.toOption.isNone, x.2.2)) =
      some (true, ⟨"j1", some (.dynamo (.putJobItem (jobToRecord { demoJob with
        createdAt := demoTime 0, enqueuedAt := demoTime 0 }))), []⟩) := rfl
  obtain ⟨⟨a, w', g⟩, hscript, hout⟩ := Option.map_eq_some_iff.mp hrun
  obtain ⟨ha, rfl⟩ := Prod.mk.inj hout
  have hrun := ghost_script_runs _ hscript
  cases a with
  | ok j => cases ha
  | error e =>
    refine ⟨e, w', _, hrun, (failed_push_leaves_no_trace hrun).mpr ⟨untraced_empty _, _, rfl⟩⟩

/-- A job that does not fit into a message is refused after it was stored. -/
theorem oversized_push_leaves_record : ¬ ∀ (cfg : Config) (ρ : Rules) (w w' : World) (job : Job)
    (g : Attempt) (e : Error),
    Runs ρ.attempting (push cfg job) (w, { id := job.id }) (.error e) (w', g) →
    Untraced g.id w → Untraced g.id w' := by
  intro hall
  have hrun : ((script (ghostAct (Rules.act {}) Attempt.note) [.tick 0, .ok, .ok, .ok, .ok, .ok, .ok]
      (push { demo with marshalSize := fun _ => some 300000 } demoJob)
      (({}, { id := "j1" }) : World × Attempt)).map fun x => (x.1.toOption.isNone,
        (x.2.1.store.jobs.lookup "j1").isSome, x.2.2.id)) = some (true, true, "j1") := rfl
  obtain ⟨⟨a, w', g⟩, hscript, hout⟩ := Option.map_eq_some_iff.mp hrun
  obtain ⟨ha, hout⟩ := Prod.mk.inj hout
  obtain ⟨hstored, hid⟩ := Prod.mk.inj hout
  simp only at hid
  cases a with
  | ok j => cases ha
  | error e =>
    have h := hall _ {} {} w' demoJob g e (ghost_script_runs _ hscript)
      (untraced_empty _)
    rw [hid] at h
    have hnone : w'.store.jobs.lookup "j1" = none := h.record
    rw [hnone] at hstored
    cases hstored

end OjsSqs
