import OjsSqs.Lifecycle.Arrive
import OjsSqs.Unique.Keyless

/-! # The unique keys of a run

A Push with a unique policy takes the key of its fingerprint, for the time to
live its policy gives. No operation deletes a key: it goes when its time is
over. So a stored job with a policy still holds its key, or the time of its
key is over. -/
namespace OjsSqs
open Calls

section
variable (cfg : Config)

/-- The fingerprint of a stored job, under its own policy. -/
def fingerprintOf (r : JobRecord) : Option String :=
  r.unique.unmarshal.map fun policy => computeFingerprint cfg policy (recordToJob r)

/-- The time to live of the key of a stored job, in seconds. -/
def keyTTL (r : JobRecord) : Int :=
  match r.unique.unmarshal with
  | some policy => uniqueTTL cfg policy
  | none => 0

/-- The job holds its key, or the time of its key is over. -/
def KeyedAt (born : String → Time) (w : World) (id : String) : Prop :=
  ∀ r fp, w.store.jobs.lookup id = some r → fingerprintOf cfg r = some fp →
    (∃ item, w.store.uniqueKeys.lookup fp = some item ∧ item.jobID = id ∧
      (born id).unix + keyTTL cfg r ≤ item.ttl) ∨
    (born id).unix + keyTTL cfg r < w.clock.unix

/-- Every stored job does; `born` says when each of them was pushed. -/
def Keyed (born : String → Time) (w : World) : Prop := ∀ id, KeyedAt cfg born w id

end

theorem Time.unix_mono {s t : Time} (h : s ≤ t) : s.unix ≤ t.unix :=
  Int.ediv_le_ediv (by decide) h

section
variable {cfg : Config} {ρ : Rules} {born : String → Time} {w w' : World} {id : String}

/-- What identifies a job's key is not touched by an update of its record. -/
theorem JobRecord.update_key (r : JobRecord) (s : JobState) (us : List JobUpdate) (sk pk : String) :
    fingerprintOf cfg (r.update s us sk pk) = fingerprintOf cfg r ∧
      keyTTL cfg (r.update s us sk pk) = keyTTL cfg r := by
  have htype : (r.update s us sk pk).type = r.type :=
    applyUpdates_field (·.type) (fun u r => by cases u <;> rfl) us r
  have hargs : (r.update s us sk pk).args = r.args :=
    applyUpdates_field (·.args) (fun u r => by cases u <;> rfl) us r
  have hunique := JobRecord.update_unique r s us sk pk
  refine ⟨?_, by rw [keyTTL, hunique, keyTTL]⟩
  rw [fingerprintOf, hunique, fingerprintOf]
  congr 1
  funext policy
  rw [computeFingerprint, computeFingerprint]
  congr 3
  funext key
  have hqueue := JobRecord.update_queue r s us sk pk
  simp only [fingerprintPart, recordToJob, htype, hargs, hqueue]

theorem KeyedAt.keep (h : KeyedAt cfg born w id) (hclock : w.clock ≤ w'.clock)
    (hkeys : ∀ fp item, w.store.uniqueKeys.lookup fp = some item →
      w'.store.uniqueKeys.lookup fp = some item)
    (hjob : ∀ r' fp, w'.store.jobs.lookup id = some r' → fingerprintOf cfg r' = some fp →
      ∃ r, w.store.jobs.lookup id = some r ∧ fingerprintOf cfg r = some fp ∧
        keyTTL cfg r = keyTTL cfg r') : KeyedAt cfg born w' id := by
  intro r' fp hr' hfp
  obtain ⟨r, hr, hfp, httl⟩ := hjob r' fp hr' hfp
  rw [← httl]
  rcases h r fp hr hfp with ⟨item, hitem, hid, hle⟩ | hlt
  · exact .inl ⟨item, hkeys fp item hitem, hid, hle⟩
  · exact .inr (lt_of_lt_of_le hlt (Time.unix_mono hclock))

/-- The jobs and the keys are the same. -/
theorem KeyedAt.same (h : KeyedAt cfg born w id) (hclock : w.clock ≤ w'.clock)
    (hkeys : w'.store.uniqueKeys = w.store.uniqueKeys)
    (hjobs : w'.store.jobs.lookup id = w.store.jobs.lookup id) : KeyedAt cfg born w' id :=
  h.keep hclock (fun _ _ hi => hkeys ▸ hi) fun r' _ hr' hfp =>
    ⟨r', hjobs ▸ hr', hfp, rfl⟩

/-- A call that takes no key and stores no unique job. -/
theorem KeyedAt.call {c : Call} {a : Answer c} (hc : c.keyless) (h : KeyedAt cfg born w id)
    (he : ρ.env c w a w') : KeyedAt cfg born w' id := by
  have hclock := Rules.env_clock he
  cases c with
  | dynamo d =>
    obtain ⟨ch, s', -, hact, rfl⟩ := Rules.env_dynamo he
    rcases Store.act_cases hact with hrun | rfl
    · have hs' : s' = (w.store.run d).2 := congrArg Prod.snd hrun
      subst hs'
      cases d with
      | putUniqueItem fp i ttl => exact hc.elim
      | putJobItem r =>
        have hc : r.unique.unmarshal = none := hc
        refine h.keep hclock (fun _ _ h => h) fun r' fp hr' hfp => ?_
        simp only [World.setStore, Store.run] at hr'
        by_cases hid : id = r.id
        · subst hid
          rw [AList.lookup_insert] at hr'
          cases hr'
          rw [fingerprintOf, hc] at hfp
          cases hfp
        · rw [AList.lookup_insert_ne hid] at hr'
          exact ⟨r', hr', hfp, rfl⟩
      | updateJobItem i s us sk pk =>
        refine h.keep hclock (fun _ _ h => h) fun r' fp hr' hfp => ?_
        simp only [World.setStore, Store.run] at hr'
        by_cases hid : id = i
        · subst hid
          rw [AList.lookup_insert] at hr'
          cases hr'
          rw [(JobRecord.update_key _ s us sk pk).1] at hfp
          cases hr : w.store.jobs.lookup id with
          | none =>
            rw [hr] at hfp
            cases hfp
          | some r =>
            rw [hr] at hfp
            exact ⟨r, rfl, hfp, (JobRecord.update_key r s us sk pk).2.symm⟩
        · rw [AList.lookup_insert_ne hid] at hr'
          exact ⟨r', hr', hfp, rfl⟩
      | putQueueItem name =>
        have hsame : ((w.store.run (.putQueueItem name)).2).uniqueKeys = w.store.uniqueKeys ∧
            ((w.store.run (.putQueueItem name)).2).jobs = w.store.jobs := by
          simp only [Store.run]
          split <;> exact ⟨rfl, rfl⟩
        exact h.same hclock hsame.1 (by rw [World.setStore, hsame.2])
      | updateWorkflowItem wf us =>
        have hsame : ((w.store.run (.updateWorkflowItem wf us)).2).uniqueKeys =
            w.store.uniqueKeys ∧
            ((w.store.run (.updateWorkflowItem wf us)).2).jobs = w.store.jobs := by
          simp only [Store.run]
          split <;> exact ⟨rfl, rfl⟩
        exact h.same hclock hsame.1 (by rw [World.setStore, hsame.2])
      | putCronLockItem name ts ttl =>
        have hsame : ((w.store.run (.putCronLockItem name ts ttl)).2).uniqueKeys =
            w.store.uniqueKeys ∧
            ((w.store.run (.putCronLockItem name ts ttl)).2).jobs = w.store.jobs := by
          simp only [Store.run]
          split <;> exact ⟨rfl, rfl⟩
        exact h.same hclock hsame.1 (by rw [World.setStore, hsame.2])
      | _ => exact h.same hclock rfl rfl
    · exact h
  | sqs c =>
    have hs := Rules.env_aside (fun _ hd => by cases hd) he
    exact h.same hclock (by rw [hs]) (by rw [hs])
  | proc c =>
    have hs := Rules.env_aside (fun _ hd => by cases hd) he
    exact h.same hclock (by rw [hs]) (by rw [hs])

theorem Keyed.call {c : Call} {a : Answer c} (hc : c.keyless) (h : Keyed cfg born w)
    (he : ρ.env c w a w') : Keyed cfg born w' := fun id => (h id).call hc he

/-- A program of such calls. -/
theorem Keyed.keeps {α : Type} {p : M α} (hp : p.Only Call.keyless) (h : Keyed cfg born w) :
    wp ρ.env.every p (fun _ => Keyed cfg born) w :=
  hp.keeps (Keyed cfg born) (fun _ _ _ _ hc h he => h.call hc he) h

/-! ## The key of a pushed job -/

/-- Sorting the keys of a policy twice is sorting them once. -/
theorem fingerprintKeys_sorted (policy : UniquePolicy) :
    fingerprintKeys { policy with keys := policy.keys.insertionSort (· ≤ ·) } =
      fingerprintKeys policy := by
  rw [fingerprintKeys, fingerprintKeys]
  cases hk : policy.keys with
  | nil => rfl
  | cons key keys =>
    have hlen := List.length_insertionSort (· ≤ ·) (key :: keys)
    have hne : ((key :: keys).insertionSort (· ≤ ·)).isEmpty = false := by
      rw [List.isEmpty_eq_false_iff, ← List.length_pos_iff, hlen]
      exact Nat.succ_pos _
    simp only [hne, List.isEmpty_cons, Bool.false_eq_true, if_false]
    exact (List.pairwise_insertionSort (· ≤ ·) (key :: keys)).insertionSort_eq

theorem textOfRaw_rawOfText (args : Option String) :
    textOfRaw (rawOfText (textOfRaw args)) = textOfRaw args := by
  rw [rawOfText]
  split
  · rename_i h
    rw [h]
    rfl
  · rfl

/-- A job is stored with the fingerprint it was pushed with, and with the
period of its policy. -/
theorem sortUniqueKeys_stored (policy : UniquePolicy) (job : Job) (s : JobState) (t : String) :
    let r := jobToRecord { sortUniqueKeys policy job with state := s, enqueuedAt := t }
    fingerprintOf cfg r = some (computeFingerprint cfg policy job) ∧
      keyTTL cfg r = uniqueTTL cfg policy := by
  refine ⟨?_, rfl⟩
  have hpart : ∀ key, fingerprintPart (recordToJob (jobToRecord
      { sortUniqueKeys policy job with state := s, enqueuedAt := t })) key =
      fingerprintPart job key := by
    intro key
    simp only [fingerprintPart, recordToJob, jobToRecord, sortUniqueKeys, textOfRaw_rawOfText]
  show some (computeFingerprint cfg { policy with keys := policy.keys.insertionSort (· ≤ ·) } _) = _
  rw [computeFingerprint, fingerprintKeys_sorted, funext hpart, computeFingerprint]

end

end OjsSqs
