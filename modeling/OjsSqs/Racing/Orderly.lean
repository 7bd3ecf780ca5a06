import OjsSqs.Atomic.Methods
import OjsSqs.Lifecycle.Invariant
import OjsSqs.Racing.Handles

/-! # One job among the others

In an orderly world records are stored under their identifiers and the cached
URLs are the queues' own. A call that passes leaves the job and its message as
they are and gets an answer that the monitors expect; a receive finds the one
message of the job, or does not. -/
namespace OjsSqs
open Calls

structure Orderly (cfg : Config) (w : World) : Prop where
  sqs : w.sqs.Sound
  urls : ∀ queue url, w.queueURLs.lookup queue = some url → url = sqsQueueName cfg queue
  ids : ∀ i r, w.store.jobs.lookup i = some r → r.id = i

section
variable {cfg : Config} {ρ : Rules} {w w' : World} {id : String}

theorem Rules.env_sqsRun (hρ : ρ.faults = false) {c : SqsCall} (hc : c.isReceive = false)
    {r : Except AwsError c.Answer} (h : ρ.env (.sqs c) w r w') :
    r = (c.run w.sqs).1 ∧ w' = w.setSqs (c.run w.sqs).2 := by
  have hw := (wp_sqs hρ hc fun r w' =>
    r = (c.run w.sqs).1 ∧ w' = w.setSqs (c.run w.sqs).2).mpr ⟨rfl, rfl⟩
  exact hw r w' h

theorem Orderly.setSqs (h : Orderly cfg w) {q : SqsState} (hq : q.Sound) :
    Orderly cfg (w.setSqs q) := ⟨hq, h.urls, h.ids⟩

theorem Orderly.update (h : Orderly cfg w) {i : String} {r : JobRecord}
    (hr : w.store.jobs.lookup i = some r) (s : JobState) (us : List JobUpdate) (sk pk : String) :
    Orderly cfg (w.setJob i (r.update s us sk pk)) := by
  refine ⟨h.sqs, h.urls, fun j r' hr' => ?_⟩
  by_cases hj : j = i
  · subst hj
    rw [World.setJob_lookup] at hr'
    cases hr'
    rw [JobRecord.update_id]
    exact h.ids _ r hr
  · rw [World.setJob_lookup_ne _ hj] at hr'
    exact h.ids j r' hr'

/-- An update of a record that is stored. -/
theorem Rules.env_updateJobItem (hρ : ρ.faults = false) {i : String} {r : JobRecord}
    (hr : w.store.jobs.lookup i = some r) {s : JobState} {us : List JobUpdate} {sk pk : String}
    {a : Except AwsError Unit} (h : ρ.env (.dynamo (.updateJobItem i s us sk pk)) w a w') :
    a = .ok () ∧ w' = w.setJob i (r.update s us sk pk) := by
  obtain ⟨ha, hw⟩ := Rules.env_run hρ rfl h
  simp only [Store.run, hr, Option.getD_some] at ha hw
  exact ⟨ha, hw⟩

/-- What a call that passes leaves as it is. -/
structure Passed (cfg : Config) (id : String) (w w' : World) : Prop where
  orderly : Orderly cfg w'
  job : w'.store.jobs.lookup id = w.store.jobs.lookup id
  messages : w'.sqs.messagesOf id = w.sqs.messagesOf id

theorem Orderly.passed_refl (h : Orderly cfg w) : Passed cfg id w w := ⟨h, rfl, rfl⟩

variable {message : MessageId}

/-- The messages of the job are not those of other deliveries. -/
theorem delete_messagesOf {q : SqsState} (hq : q.Sound) {url : String} {h : Receipt}
    (hm : ∀ m ∈ q.messagesOf id, m.id = message) (hh : h.message ≠ message) :
    (q.delete url h).messagesOf id = q.messagesOf id := by
  rw [SqsState.delete_eq, SqsState.messagesOf_filter, List.filter_eq_self]
  intro m hmem
  refine decide_eq_true fun hdel => hh ?_
  rw [hq.receipts m (SqsState.mem_messagesOf.mp hmem).1 h hdel.2, hm m hmem]

theorem Orderly.passes (hρ : ρ.faults = false) (ho : Orderly cfg w)
    (hstored : (w.store.jobs.lookup id).isSome)
    (hm : ∀ m ∈ w.sqs.messagesOf id, m.id = message) {c : Call} {r : Answer c}
    (hc : c.passes cfg id message) (he : ρ.env c w r w') :
    Passed cfg id w w' ∧ c.plausible cfg id r = true := by
  cases c with
  | dynamo d =>
    cases d with
    | getJobItem i =>
      obtain ⟨rfl, rfl⟩ := Rules.env_run hρ rfl he
      refine ⟨ho.passed_refl, ?_⟩
      cases hi : w.store.jobs.lookup i with
      | none =>
        simp only [Store.run, hi]
        refine decide_eq_true fun hid => ?_
        rw [← hid, hi] at hstored
        cases hstored
      | some r =>
        simp only [Store.run, hi]
        exact decide_eq_true (ho.ids i r hi)
    | getQueueItem name =>
      obtain ⟨rfl, rfl⟩ := Rules.env_run hρ rfl he
      exact ⟨ho.passed_refl, rfl⟩
    | updateJobItem i s us sk pk =>
      have hi : i ≠ id := hc
      obtain ⟨rfl, rfl⟩ := Rules.env_run hρ rfl he
      refine ⟨⟨⟨ho.sqs, ho.urls, fun j r' hr' => ?_⟩, AList.lookup_insert_ne (Ne.symm hi), rfl⟩, rfl⟩
      simp only [World.setStore, Store.run] at hr'
      by_cases hj : j = i
      · subst hj
        rw [AList.lookup_insert] at hr'
        cases hr'
        rw [JobRecord.update_id]
        cases hr : w.store.jobs.lookup j with
        | none => rfl
        | some r => exact ho.ids j r hr
      · rw [AList.lookup_insert_ne hj] at hr'
        exact ho.ids j r' hr'
    | _ => cases hc
  | sqs c =>
    cases c with
    | createQueue name =>
      obtain ⟨rfl, rfl⟩ := Rules.env_sqsRun hρ rfl he
      exact ⟨⟨ho.setSqs (SqsState.sound_createQueue name ho.sqs), rfl,
        SqsState.createQueue_messagesOf name id⟩, decide_eq_true rfl⟩
    | deleteMessage url h =>
      obtain ⟨rfl, rfl⟩ := Rules.env_sqsRun hρ rfl he
      exact ⟨⟨ho.setSqs (ho.sqs.filter _), rfl, delete_messagesOf ho.sqs hm hc⟩, rfl⟩
    | _ => cases hc
  | proc c =>
    cases c with
    | lookupURL queue =>
      obtain ⟨rfl, rfl⟩ := (wp_lookupURL fun a w' => a = w.queueURLs.lookup queue ∧ w' = w).mpr
        ⟨rfl, rfl⟩ r w' he
      refine ⟨ho.passed_refl, ?_⟩
      cases hl : w'.queueURLs.lookup queue with
      | none => rfl
      | some url => exact decide_eq_true (ho.urls queue url hl)
    | goEnsureDLQ queue url =>
      obtain rfl := (wp_goEnsureDLQ fun _ w' => w' = { w with
        background := w.background ++ [(queue, url)] }).mpr rfl r w' he
      exact ⟨⟨⟨ho.sqs, ho.urls, ho.ids⟩, rfl, rfl⟩, rfl⟩
    | cacheURL queue url =>
      obtain rfl := (wp_cacheURL fun _ w' => w' = { w with
        queueURLs := w.queueURLs.insert queue url }).mpr rfl r w' he
      refine ⟨⟨⟨ho.sqs, fun q u hu => ?_, ho.ids⟩, rfl, rfl⟩, rfl⟩
      by_cases hq : q = queue
      · subst hq
        rw [AList.lookup_insert] at hu
        cases hu
        exact hc
      · rw [AList.lookup_insert_ne hq] at hu
        exact ho.urls q u hu
    | _ => cases hc

end

/-! ## The receive -/

namespace SqsState
variable {q : SqsState}

/-- A message no delivery is about is not touched. -/
theorem receive_kept (vis : Int) {ids : List MessageId} (hids : ids.Nodup) (hq : q.Sound)
    (hfull : q.noneExhausted ids = true) {m : Message} (hm : m ∈ q.messages)
    (hno : ∀ d ∈ (receive vis ids q).1, d.messageID ≠ m.id) :
    m ∈ (receive vis ids q).2.messages := by
  induction ids generalizing q with
  | nil => exact hm
  | cons i ids ih =>
    obtain ⟨hnot, hids⟩ := List.nodup_cons.mp hids
    obtain ⟨hi, hrest⟩ : _ ∧ _ := by
      simpa only [noneExhausted, List.all_cons, Bool.and_eq_true] using hfull
    rw [receive] at hno ⊢
    cases hf : q.find i with
    | none =>
      rw [hf] at hno
      exact ih hids hq hrest hm hno
    | some m₁ =>
      rw [hf] at hi hno
      have hi : q.exhausted m₁ = false := by simpa using hi
      simp only [hi, Bool.false_eq_true, if_false] at hno ⊢
      have hne : i ≠ m.id := hno _ List.mem_cons_self
      refine ih hids (hq.map (same_deliverMessage i vis)) ?_ ?_ fun d hd =>
        hno d (List.mem_cons_of_mem _ hd)
      · refine List.all_eq_true.mpr fun j hj => ?_
        rw [find_deliver vis (ne_of_mem_of_not_mem hj hnot)]
        exact List.all_eq_true.mp hrest j hj
      · exact List.mem_map.mpr ⟨m, hm, if_neg (Ne.symm hne)⟩

end SqsState

section
variable {cfg : Config} {ρ : Rules} {w w' : World} {id : String} {m : Message}

/-- A receive gives the Fetch the job's message, or leaves it as it is. -/
theorem Orderly.receive (hρ : ρ.faults = false) (hfull : ρ.redrive = false) (ho : Orderly cfg w)
    (hone : w.sqs.messagesOf id = [m]) {url : String} {max : Nat} {vis : Int}
    {a : Except AwsError (List Delivery)} (he : ρ.env (.sqs (.receiveMessage url max vis)) w a w')
    (now : Time) (took : Bool) :
    ∃ ds m', a = .ok ds ∧ Orderly cfg w' ∧ w'.store = w.store ∧ w'.clock = w.clock ∧
      w'.sqs.messagesOf id = [m'] ∧ m'.id = m.id ∧ m'.queueURL = m.queueURL ∧ m'.body = m.body ∧
      (Grip.received id m.id now took max ds = .free now took ∧ m' = m ∨
        ∃ d ∈ ds, Grip.received id m.id now took max ds = .holds now took d ∧
          d.jobID = some id ∧ d.body = m.body) := by
  obtain ⟨ids, hp, hnone, rfl, rfl⟩ : ∃ ids, w.sqs.mayPick url max ids = true ∧
      w.sqs.noneExhausted ids = true ∧ a = .ok (w.sqs.receive vis ids).1 ∧
      w' = w.setSqs (w.sqs.receive vis ids).2 :=
    wp_receive hρ (Q := fun a w' => ∃ ids, w.sqs.mayPick url max ids = true ∧
      w.sqs.noneExhausted ids = true ∧ a = .ok (w.sqs.receive vis ids).1 ∧
      w' = w.setSqs (w.sqs.receive vis ids).2)
      (fun ids hp hn => ⟨ids, hp, hn hfull, rfl, rfl⟩) a w' he
  obtain ⟨hlen, hnodup, -⟩ := SqsState.picked_of_mayPick hp
  obtain ⟨hmem, hjob⟩ := SqsState.mem_messagesOf.mp (hone ▸ List.mem_singleton_self m)
  have hspec := SqsState.receive_spec vis hnodup ho.sqs
  have hids := SqsState.receive_messagesOf_eq (q := w.sqs) vis hnodup hnone id
  have hkept := SqsState.receive_kept vis hnodup ho.sqs hnone hmem
  generalize w.sqs.receive vis ids = out at hspec hids hkept
  obtain ⟨ds, q'⟩ := out
  rw [hone, List.map_singleton] at hids
  obtain ⟨m', hone', hid'⟩ := List.map_eq_singleton_iff.mp hids
  obtain ⟨hmem', hjob'⟩ := SqsState.mem_messagesOf.mp (hone' ▸ List.mem_singleton_self m')
  obtain ⟨m₁, hm₁, hid₁, hbody₁, hurl₁, -⟩ := hspec.messages m' hmem'
  rw [ho.sqs.unique hm₁ hmem (hid₁.symm.trans hid')] at hbody₁ hurl₁
  -- a delivery of the job is one of this message, and the other way round
  have hown : ∀ d ∈ ds, d.jobID = some id → d.messageID = m.id ∧ d.body = m.body := by
    intro d hd hdj
    obtain ⟨m₂, hm₂, hid₂, hbody₂, -⟩ := hspec.deliveries d hd
    have h₂ : m₂ ∈ q'.messagesOf id :=
      SqsState.mem_messagesOf.mpr ⟨hm₂, by rw [Message.jobID, hbody₂]; exact hdj⟩
    rw [hone', List.mem_singleton] at h₂
    rw [h₂] at hid₂ hbody₂
    exact ⟨hid₂.symm.trans hid', hbody₂.symm.trans hbody₁⟩
  have hothers : ∀ d ∈ ds, d.jobID ≠ some id → d.receiptHandle.message ≠ m.id := by
    intro d hd hdj hdm
    obtain ⟨m₂, hm₂, hid₂, hbody₂, hr₂⟩ := hspec.deliveries d hd
    have hid : m₂.id = m'.id := by rw [← hspec.sound.receipts m₂ hm₂ _ hr₂, hdm, hid']
    rw [hspec.sound.unique hm₂ hmem' hid] at hbody₂
    exact hdj (by rw [Delivery.jobID, ← hbody₂]; exact hjob')
  have hroom : ds.length ≤ max := by
    have h := hspec.picked.length_le
    rw [List.length_map] at h
    exact h.trans hlen
  refine ⟨ds, m', rfl, ho.setSqs hspec.sound, rfl, rfl, hone', hid', hurl₁, hbody₁, ?_⟩
  rw [Grip.received, if_pos ⟨hroom, hothers⟩, Grip.holding]
  have hsingle : ((ds.filter fun d => d.jobID = some id).map (·.messageID)).Nodup :=
    (hspec.picked.nodup hnodup).sublist (List.filter_sublist.map _)
  have hall : ∀ d ∈ ds.filter fun d => d.jobID = some id, d ∈ ds ∧ d.jobID = some id := by
    intro d hd
    simpa using hd
  cases hf : ds.filter fun d => d.jobID = some id with
  | nil =>
    refine .inl ⟨rfl, ?_⟩
    have hno : ∀ d ∈ ds, d.messageID ≠ m.id := by
      intro d hd hdm
      obtain ⟨m₂, hm₂, hid₂, hbody₂, -⟩ := hspec.deliveries d hd
      rw [hspec.sound.unique hm₂ hmem' (hid₂.trans (hdm.trans hid'.symm))] at hbody₂
      have hd' : d ∈ ds.filter fun d => d.jobID = some id := by
        simp only [List.mem_filter, decide_eq_true_eq]
        exact ⟨hd, by rw [Delivery.jobID, ← hbody₂]; exact hjob'⟩
      rw [hf] at hd'
      cases hd'
    exact hspec.sound.unique hmem' (hkept hno) hid'
  | cons d rest =>
    rw [hf] at hall hsingle
    obtain ⟨hd, hdj⟩ := hall d List.mem_cons_self
    cases rest with
    | nil => exact .inr ⟨d, hd, rfl, hdj, (hown d hd hdj).2⟩
    | cons d' rest =>
      obtain ⟨hd', hdj'⟩ := hall d' (by simp)
      have h := (hown d hd hdj).1.trans (hown d' hd' hdj').1.symm
      simp [h] at hsingle

end

end OjsSqs
