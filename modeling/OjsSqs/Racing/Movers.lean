import OjsSqs.Faults.Promote

/-! # Promoters next to each other

Any number of promoters of one index, and of Cancels, run next to each other.
A monitor follows what each of them does with one job: a promoter finds it on
its list, reads it, removes its marker, writes it available and sends it. -/
namespace OjsSqs
open Calls

/-- A call of one process. -/
inductive Mover where
  | promote
  | cancel (id : String)
deriving DecidableEq

def Mover.prog (cfg : Config) (index : DueIndex) : Mover → M Unit
  | .promote => (fun _ => ()) <$> OjsSqs.promote cfg index
  | .cancel id => (fun _ => ()) <$> OjsSqs.cancel cfg id

/-- Where a process stands with the job. `lost` is a process to which
something has happened that does not happen. -/
inductive Stage where
  | away
  | listed
  | loaded (r : JobRecord)
  | unmarked (r : JobRecord)
  | clocked (r : JobRecord) (now : Time)
  | freed (r : JobRecord) (now : Time)
  | sent
  | cancelling
  | cleared
  | lost

namespace Stage

/-- After a due list. -/
def ofList (id : String) (ids : List String) : Stage :=
  if id ∈ ids then if ids.Nodup then .listed else .lost else .away

/-- After a read of `k`: every record is stored under its own identifier. -/
def afterRead (s : Stage) (k : String) (r : JobRecord) : Stage := if r.id = k then s else .lost

/-- The job waits for the process. -/
def isSettled : Stage → Bool
  | .listed | .loaded _ | .unmarked _ | .clocked _ _ | .freed _ _ => false
  | _ => true

/-- The process handles other jobs. -/
inductive Elsewhere : Stage → Prop
  | away : Elsewhere .away
  | listed : Elsewhere .listed
  | sent : Elsewhere .sent

end Stage

namespace Call

/-- The calls of a process that handles other jobs. -/
def leaves (id : String) : Call → Prop
  | .dynamo (.getJobItem k) | .dynamo (.updateJobItem k _ _ _ _) => k ≠ id
  | .dynamo (.deleteDueItem _ k) => k ≠ id
  | .dynamo _ => False
  | .sqs (.sendMessage _ m) => m.body.id ≠ id
  | _ => True

/-- The calls that open a queue. -/
def opensQueue : Call → Bool
  | .sqs (.createQueue _) | .proc (.lookupURL _) | .proc (.goEnsureDLQ _ _)
  | .proc (.cacheURL _ _) => true
  | _ => false

/-- The calls of a Cancel that are not about the store, but for its reads of the job. -/
def settles (id : String) : Call → Bool
  | .dynamo (.getJobItem k) => decide (k = id)
  | .sqs (.deleteMessage _ _) | .proc .now => true
  | c => c.opensQueue

end Call

/-- Follows what a process does with the job `id`. -/
def moving (cfg : Config) (index : DueIndex) (id : String) : Monitor Stage Call Answer Unit where
  allow
    | .away, .dynamo (.queryDue i _) | .away, .dynamo (.scanDue i _) => i = index
    | .away, c | .sent, c => c.leaves id
    | .listed, c => c.leaves id ∨ c = .dynamo (.getJobItem id)
    | .loaded _, c => c = .dynamo (.deleteDueItem index id)
    | .unmarked _, c => c = .proc .now
    | .clocked _ _, c => c = .dynamo (.getJobItem id) ∨
        ∃ us sk pk, c = .dynamo (.updateJobItem id .available us sk pk)
    | .freed _ _, .sqs (.sendMessage _ m) => m.body.id = id
    | .freed _ _, c => c.opensQueue
    | .cancelling, c => c.settles id ∨ ∃ i, c = .dynamo (.deleteDueItem i id)
    | .cleared, c => c.settles id ∨ (∃ i, c = .dynamo (.deleteDueItem i id)) ∨
        ∃ us sk pk, c = .dynamo (.updateJobItem id .cancelled us sk pk)
    | .lost, _ => True
  next
    | .away, .dynamo (.queryDue _ _), .ok ids => .ofList id ids
    | .away, .dynamo (.scanDue _ _), .ok ids => .ofList id ids
    | .away, .dynamo (.getJobItem k), .ok (some r) => Stage.afterRead .away k r
    | .sent, .dynamo (.getJobItem k), .ok (some r) => Stage.afterRead .sent k r
    | .listed, .dynamo (.getJobItem k), .ok (some r) =>
      Stage.afterRead (if k = id then .loaded r else .listed) k r
    | .listed, .dynamo (.getJobItem k), _ => if k = id then .lost else .listed
    | .loaded r, .dynamo (.deleteDueItem _ _), .ok _ => .unmarked r
    | .loaded _, _, _ => .lost
    | .unmarked r, .proc .now, t =>
      if encodes cfg (promotedJob cfg t r) = true then .clocked r t else .lost
    | .clocked r t, .dynamo (.getJobItem _), .ok (some _) => .clocked r t
    | .clocked r t, .dynamo (.updateJobItem _ _ _ _ _), .ok _ => .freed r t
    | .clocked _ _, _, _ => .lost
    | .freed _ _, .sqs (.createQueue _), .error _ => .lost
    | .freed _ _, .sqs (.sendMessage _ _), .error _ => .lost
    | .freed _ _, .sqs (.sendMessage _ _), .ok _ => .sent
    | .cancelling, .dynamo (.deleteDueItem i _), .ok _ => if i = index then .cleared else .cancelling
    | .cancelling, .dynamo (.deleteDueItem _ _), .error _ => .lost
    | s, _, _ => s
  accept _ s := s.isSettled = true

section
variable {cfg : Config} {index : DueIndex} {id k : String}

theorem moving_lost {β : Type} {p : M β} {Q : β → Stage → Prop} (hQ : ∀ a, Q a .lost) :
    wp (moving cfg index id).effect p Q .lost := by
  induction p with
  | pure a => exact hQ a
  | call c _ ih => exact ⟨trivial, fun r => ih r⟩

/-! ## Other jobs -/

theorem Stage.afterRead_cases (s : Stage) (k : String) (r : JobRecord) :
    s.afterRead k r = s ∨ s.afterRead k r = .lost := by
  rw [Stage.afterRead]
  split
  · exact .inl rfl
  · exact .inr rfl

/-- A call about other jobs. -/
theorem Stage.Elsewhere.step {s : Stage} (hs : s.Elsewhere) {c : Call} (hc : c.leaves id) :
    (moving cfg index id).allow s c ∧ ∀ r, (moving cfg index id).next s c r = s ∨
      (moving cfg index id).next s c r = .lost := by
  cases c with
  | dynamo d =>
    cases d with
    | getJobItem k =>
      have hk : k ≠ id := hc
      refine ⟨by cases hs <;> first | exact hk | exact .inl hk, fun r => ?_⟩
      cases hs with
      | listed =>
        rcases r with _ | _ | r
        · exact .inl (if_neg hk)
        · exact .inl (if_neg hk)
        · rw [show (moving cfg index id).next .listed (.dynamo (.getJobItem k)) (.ok (some r)) =
            Stage.afterRead (if k = id then .loaded r else .listed) k r from rfl, if_neg hk]
          exact Stage.afterRead_cases _ _ _
      | away | sent =>
        rcases r with _ | _ | r
        · exact .inl rfl
        · exact .inl rfl
        · exact Stage.afterRead_cases _ _ _
    | _ =>
      first
      | exact hc.elim
      | (cases hs <;> first | exact ⟨hc, fun _ => .inl rfl⟩ | exact ⟨.inl hc, fun _ => .inl rfl⟩)
  | sqs c =>
    cases hs <;> cases c <;> first
      | exact ⟨hc, fun _ => .inl rfl⟩
      | exact ⟨.inl hc, fun _ => .inl rfl⟩
  | proc c =>
    cases hs <;> first
      | exact ⟨trivial, fun _ => .inl rfl⟩
      | exact ⟨.inl trivial, fun _ => .inl rfl⟩

/-- A stretch of a process that handles other jobs. -/
theorem moving_elsewhere {β : Type} {p : M β} {s : Stage} (hs : s.Elsewhere)
    (hp : p.Only (·.leaves id)) :
    wp (moving cfg index id).effect p (fun _ s' => s' = s ∨ s' = .lost) s := by
  induction p with
  | pure a => exact .inl rfl
  | call c _ ih =>
    obtain ⟨hc, hk⟩ := hp
    obtain ⟨ha, hn⟩ := hs.step hc
    refine ⟨ha, fun r => ?_⟩
    rcases hn r with h | h
    · rw [h]
      exact ih r (hk r)
    · rw [h]
      exact moving_lost fun _ => .inr rfl

theorem Call.leaves_of_opensQueue {c : Call} (hc : c.opensQueue = true) : c.leaves id := by
  cases c with
  | dynamo d => cases hc
  | sqs c => cases c <;> trivial
  | proc c => trivial

theorem only_opensQueue (queue : String) :
    (getOrCreateQueueURL cfg queue).Only (·.opensQueue = true) :=
  only_queueURL cfg queue rfl (fun _ => rfl) (fun _ => rfl) fun _ => rfl

theorem leaves_updateJobState (hk : k ≠ id) (s : JobState) (us : List JobUpdate) :
    (updateJobState k s us).Only (·.leaves id) := by
  refine Prog.only_bind (only_getJob hk) fun a => ?_
  split
  · exact Prog.only_pure _
  · exact only_request hk

theorem leaves_sendToSQS {job : Job} (hj : job.id ≠ id) :
    (sendToSQS cfg job).Only (·.leaves id) := by
  refine Prog.only_bind ((only_opensQueue _).mono fun _ hc => Call.leaves_of_opensQueue hc)
    fun a => ?_
  split
  · exact Prog.only_pure _
  · split
    · exact Prog.only_pure _
    · rename_i hbody
      refine Prog.only_bind (Prog.only_perform ?_) fun a => ?_
      · rw [← encodeJob_body hbody] at hj
        exact hj
      · split <;> exact Prog.only_pure _

theorem moving_getOther {s : Stage} (hs : s.Elsewhere) (hk : k ≠ id)
    {Q : Except Error JobRecord → Stage → Prop} (herr : ∀ e, Q (.error e) s)
    (hsome : ∀ r, r.id = k → Q (.ok r) s) (hlost : ∀ a, Q a .lost) :
    wp (moving cfg index id).effect (getJob k) Q s := by
  have hread : ∀ r, (moving cfg index id).next s (.dynamo (.getJobItem k)) (.ok (some r)) =
      s.afterRead k r := fun r => by
    cases hs with
    | listed => exact congrArg (Stage.afterRead · k r) (if_neg hk)
    | _ => rfl
  have hmiss : ∀ r, (∀ x, r ≠ .ok (some x)) →
      (moving cfg index id).next s (.dynamo (.getJobItem k)) r = s := fun r hr => by
    rcases r with e | _ | r
    · cases hs <;> first | rfl | exact if_neg hk
    · cases hs <;> first | rfl | exact if_neg hk
    · exact absurd rfl (hr r)
  rw [getJob, wp_bind]
  refine ⟨(hs.step (c := .dynamo (.getJobItem k)) hk).1, fun a => ?_⟩
  rcases a with e | _ | r
  · rw [hmiss _ fun _ h => by cases h]
    exact herr _
  · rw [hmiss _ fun _ h => by cases h]
    exact herr _
  · rw [hread r, Stage.afterRead]
    split
    · rename_i hid
      exact hsome r hid
    · exact hlost _

/-- The promotion of another job. -/
theorem moving_promoteOther {s : Stage} (hs : s.Elsewhere) (hk : k ≠ id) :
    wp (moving cfg index id).effect (promoteOne cfg index k) (fun _ s' => s' = s ∨ s' = .lost) s := by
  rw [promoteOne, wp_bind]
  refine moving_getOther hs hk (fun e => .inl rfl) (fun r hid => ?_)
    fun a => moving_lost fun _ => .inr rfl
  refine moving_elsewhere hs ?_
  refine Prog.only_bind (only_request hk) fun a => ?_
  split
  · exact Prog.only_pure _
  · refine Prog.only_bind (Prog.only_perform trivial) fun now => ?_
    refine Prog.only_bind (leaves_updateJobState hk _ _) fun a => ?_
    split
    · exact Prog.only_pure _
    · refine Prog.only_bind (leaves_sendToSQS (hid.trans_ne hk)) fun a => ?_
      split <;> exact Prog.only_pure _

theorem moving_promoteOthers {s : Stage} (hs : s.Elsewhere) {ids : List String} (hids : id ∉ ids)
    (err : Option Error) :
    wp (moving cfg index id).effect (promoteAll cfg index ids err)
      (fun _ s' => s' = s ∨ s' = .lost) s := by
  induction ids generalizing err with
  | nil => exact .inl rfl
  | cons k ids ih =>
    rw [List.mem_cons, not_or] at hids
    rw [promoteAll, wp_bind]
    refine wp_mono (Monitor.effect_mono _) _ (moving_promoteOther hs (Ne.symm hids.1)) ?_
    rintro a s' (rfl | rfl)
    · exact ih hids.2 _
    · exact moving_lost fun _ => .inr rfl

/-! ## The job itself -/

theorem moving_openQueue {r : JobRecord} {now : Time} {queue : String}
    {Q : Except Error String → Stage → Prop} (hok : ∀ url, Q (.ok url) (.freed r now))
    (hlost : ∀ e, Q (.error e) .lost) :
    wp (moving cfg index id).effect (getOrCreateQueueURL cfg queue) Q (.freed r now) := by
  rw [getOrCreateQueueURL, wp_bind]
  refine ⟨rfl, fun a => ?_⟩
  cases a with
  | some url => exact hok url
  | none =>
    refine ⟨rfl, fun a => ?_⟩
    cases a with
    | error e => exact hlost _
    | ok url => exact ⟨rfl, fun _ => ⟨rfl, fun _ => hok url⟩⟩

/-- The message of the job. -/
theorem moving_send {r : JobRecord} {now : Time} (hid : r.id = id)
    (hfit : encodes cfg (promotedJob cfg now r) = true) :
    wp (moving cfg index id).effect (sendToSQS cfg (promotedJob cfg now r))
      (fun _ s' => s' = .sent ∨ s' = .lost) (.freed r now) := by
  rw [sendToSQS, wp_bind]
  refine moving_openQueue (fun url => ?_) fun e => .inr rfl
  cases hbody : encodeJob cfg (promotedJob cfg now r) with
  | error e =>
    rw [encodes, hbody] at hfit
    cases hfit
  | ok body =>
    have hmsg : (outMessage cfg (promotedJob cfg now r) body).body.id = id := by
      rw [outMessage, encodeJob_body hbody]
      exact hid
    refine ⟨hmsg, fun a => ?_⟩
    cases a with
    | error e => exact .inr rfl
    | ok m => exact .inl rfl

theorem moving_getJob {Q : Except Error JobRecord → Stage → Prop}
    (hsome : ∀ r, r.id = id → Q (.ok r) (.loaded r)) (hlost : ∀ a, Q a .lost) :
    wp (moving cfg index id).effect (getJob id) Q .listed := by
  rw [getJob, wp_bind]
  refine ⟨.inr rfl, fun a => ?_⟩
  have hmiss : ∀ a, (∀ x, a ≠ .ok (some x)) →
      (moving cfg index id).next .listed (.dynamo (.getJobItem id)) a = .lost := fun a ha => by
    rcases a with e | _ | r
    · exact if_pos rfl
    · exact if_pos rfl
    · exact absurd rfl (ha r)
  rcases a with e | _ | r
  · rw [hmiss _ fun _ h => by cases h]
    exact hlost _
  · rw [hmiss _ fun _ h => by cases h]
    exact hlost _
  · have hread : (moving cfg index id).next .listed (.dynamo (.getJobItem id)) (.ok (some r)) =
        Stage.afterRead (.loaded r) id r := congrArg (Stage.afterRead · id r) (if_pos rfl)
    rw [hread, Stage.afterRead]
    split
    · rename_i hid
      exact hsome r hid
    · exact hlost _

/-- The promotion of the job. -/
theorem moving_promoteOne : wp (moving cfg index id).effect (promoteOne cfg index id)
    (fun _ s' => s' = .sent ∨ s' = .lost) .listed := by
  have hlost : ∀ {β : Type} {p : M β}, wp (moving cfg index id).effect p
      (fun _ s' => s' = Stage.sent ∨ s' = .lost) .lost := moving_lost fun _ => .inr rfl
  rw [promoteOne, wp_bind]
  refine moving_getJob (fun r hid => ?_) fun _ => hlost
  simp only
  rw [wp_bind, removeDueJob, request, wp_bind]
  refine ⟨rfl, fun a => ?_⟩
  cases a with
  | error e => exact hlost
  | ok u =>
    refine ⟨rfl, fun now => ?_⟩
    show wp (moving cfg index id).effect _ _
      (if encodes cfg (promotedJob cfg now r) = true then Stage.clocked r now else .lost)
    split
    · rename_i hfit
      show wp (moving cfg index id).effect
        (updateJobState id .available (promoteUpdates cfg now) >>= _) _ (Stage.clocked r now)
      rw [wp_bind, updateJobState, wp_bind, getJob, wp_bind]
      refine ⟨.inl rfl, fun a => ?_⟩
      rcases a with e | _ | r'
      · exact .inr rfl
      · exact .inr rfl
      · show wp (moving cfg index id).effect (request "failed to update job state" _) _
          (Stage.clocked r now)
        rw [request, wp_bind]
        refine ⟨.inr ⟨_, _, _, rfl⟩, fun a => ?_⟩
        cases a with
        | error e => exact .inr rfl
        | ok u =>
          show wp (moving cfg index id).effect (sendToSQS cfg (promotedJob cfg now r) >>= _) _
            (Stage.freed r now)
          rw [wp_bind]
          refine wp_mono (Monitor.effect_mono _) _ (moving_send hid hfit) fun a s' hs => ?_
          cases a <;> exact hs
    · exact hlost

theorem moving_promoteAll {ids : List String} (hid : id ∈ ids) (hnodup : ids.Nodup)
    (err : Option Error) : wp (moving cfg index id).effect (promoteAll cfg index ids err)
      (fun _ s' => s' = .sent ∨ s' = .lost) .listed := by
  have hlost : ∀ {β : Type} {p : M β}, wp (moving cfg index id).effect p
      (fun _ s' => s' = Stage.sent ∨ s' = .lost) .lost := moving_lost fun _ => .inr rfl
  induction ids generalizing err with
  | nil => exact absurd hid List.not_mem_nil
  | cons k ids ih =>
    obtain ⟨hk, hnodup⟩ := List.nodup_cons.mp hnodup
    rw [promoteAll, wp_bind]
    rcases List.mem_cons.mp hid with rfl | hmem
    · refine wp_mono (Monitor.effect_mono _) _ moving_promoteOne ?_
      rintro a _ (rfl | rfl)
      · exact moving_promoteOthers .sent hk _
      · exact hlost
    · have hne : k ≠ id := fun h => hk (h ▸ hmem)
      refine wp_mono (Monitor.effect_mono _) _ (moving_promoteOther .listed hne) ?_
      rintro a _ (rfl | rfl)
      · exact ih hmem hnodup _
      · exact hlost

/-! ## The processes -/

theorem moving_promote :
    (moving cfg index id).Conforms (Mover.promote.prog cfg index) .away := by
  have hlist : ∀ ids, wp (moving cfg index id).effect (promoteAll cfg index ids none)
      (fun _ s => s.isSettled = true) (.ofList id ids) := by
    intro ids
    rw [Stage.ofList]
    split
    · rename_i hmem
      split
      · rename_i hnodup
        refine wp_mono (Monitor.effect_mono _) _ (moving_promoteAll hmem hnodup none) ?_
        rintro _ _ (rfl | rfl) <;> rfl
      · exact moving_lost fun _ => rfl
    · rename_i hmem
      refine wp_mono (Monitor.effect_mono _) _ (moving_promoteOthers .away hmem none) ?_
      rintro _ _ (rfl | rfl) <;> rfl
  rw [Monitor.Conforms, Mover.prog, wp_map, promote, wp_bind, timeNow]
  refine ⟨trivial, fun now => ?_⟩
  show wp (moving cfg index id).effect (getDueJobs index now.unixMilli >>= _) _ .away
  rw [wp_bind, getDueJobs, wp_bind]
  refine ⟨rfl, fun a => ?_⟩
  rcases a with e | ids
  · cases e with
    | missingIndex =>
      refine ⟨rfl, fun a => ?_⟩
      cases a with
      | error e => rfl
      | ok ids => exact hlist ids
    | conditionalCheckFailed => rfl
    | other msg => rfl
  · exact hlist ids

theorem only_dropSettles (r : JobRecord) : (dropMessage cfg r).Only (·.settles id = true) := by
  have hopen : ∀ c : Call, c.opensQueue = true → c.settles id = true := fun c hc => by
    cases c with
    | dynamo d => cases hc
    | sqs c => cases c <;> first | rfl | cases hc
    | proc c => cases c <;> first | rfl | cases hc
  rw [dropMessage]
  split
  · exact Prog.only_pure _
  · refine Prog.only_bind ((only_opensQueue _).mono hopen) fun a => ?_
    split
    · exact Prog.only_pure _
    · exact Prog.only_bind (Prog.only_perform rfl) fun _ => Prog.only_pure _

/-- The calls of a Cancel that leave it where it is. -/
theorem moving_settles {β : Type} {p : M β} {s : Stage} {Q : β → Stage → Prop}
    (hs : s = .cancelling ∨ s = .cleared) (hp : p.Only (·.settles id = true)) (hQ : ∀ a, Q a s) :
    wp (moving cfg index id).effect p Q s := by
  refine Monitor.wp_only hp (fun c hc => ?_) hQ
  rcases hs with rfl | rfl <;> refine ⟨.inl hc, fun r => ?_⟩
  · cases c with
    | dynamo d => cases d <;> first | rfl | cases hc
    | _ => rfl
  · rfl

theorem moving_clear {i : DueIndex} {Q : Except Error Unit → Stage → Prop}
    (hok : Q (.ok ()) (if i = index then .cleared else .cancelling)) (hlost : ∀ a, Q a .lost) :
    wp (moving cfg index id).effect (removeDueJob i id) Q .cancelling := by
  rw [removeDueJob, request, wp_bind]
  refine ⟨.inr ⟨i, rfl⟩, fun a => ?_⟩
  cases a with
  | error e => exact hlost _
  | ok u => exact hok

theorem moving_cleared {i : DueIndex} {Q : Except Error Unit → Stage → Prop}
    (hQ : ∀ a, Q a .cleared) :
    wp (moving cfg index id).effect (removeDueJob i id) Q .cleared := by
  rw [removeDueJob, request, wp_bind]
  refine ⟨.inr (.inl ⟨i, rfl⟩), fun a => ?_⟩
  cases a <;> exact hQ _

theorem moving_cancel : (moving cfg index id).Conforms ((Mover.cancel id).prog cfg index) .cancelling := by
  have hlost : ∀ {β γ : Type} {p : M β}, wp (moving cfg index id).effect p
      (fun _ s => s.isSettled = true) .lost := moving_lost fun _ => rfl
  have hwrite : ∀ (record : JobRecord) (now : String), wp (moving cfg index id).effect (do
      let _ ← updateJobState id .cancelled [.state .cancelled, .cancelledAt now, .sqsReceiptHandle none]
      return .ok { recordToJob record with state := .cancelled, cancelledAt := now } : M (Except Error Job))
      (fun _ s => s.isSettled = true) .cleared := by
    intro record now
    rw [wp_bind, updateJobState, wp_bind]
    refine moving_settles (.inr rfl) (only_getJob (decide_eq_true rfl)) fun a => ?_
    cases a with
    | error e => rfl
    | ok r =>
      refine ⟨.inr (.inr ⟨_, _, _, rfl⟩), fun a => ?_⟩
      cases a <;> rfl
  rw [Monitor.Conforms, Mover.prog, wp_map, cancel, wp_bind]
  refine moving_settles (.inl rfl) (only_getJob (decide_eq_true rfl)) fun a => ?_
  cases a with
  | error e => rfl
  | ok record =>
    simp only
    rw [wp_ite]
    split
    · rfl
    · rw [wp_bind]
      have hnow : (nowFormatted cfg).Only (·.settles id = true) :=
        Prog.only_bind (Prog.only_perform rfl) fun _ => Prog.only_pure _
      refine moving_settles (.inl rfl) hnow fun now => ?_
      rw [wp_bind]
      refine moving_settles (.inl rfl) (only_dropSettles record) fun _ => ?_
      rw [wp_bind]
      refine moving_clear ?_ fun _ => moving_lost fun _ => rfl
      rw [wp_bind]
      split
      · exact moving_cleared fun _ => hwrite record now
      · rename_i hne
        have hretry : DueIndex.retry = index := by
          cases index with
          | scheduled => exact absurd rfl hne
          | retry => rfl
        refine moving_clear ?_ fun _ => moving_lost fun _ => rfl
        rw [if_pos hretry]
        exact hwrite record now

/-- A Cancel of another job. -/
theorem moving_cancelOther (hk : k ≠ id) :
    (moving cfg index id).Conforms ((Mover.cancel k).prog cfg index) .away := by
  have hdrop : ∀ r, (dropMessage cfg r).Only (·.leaves id) := fun r => by
    rw [dropMessage]
    split
    · exact Prog.only_pure _
    · refine Prog.only_bind ((only_opensQueue _).mono fun _ => Call.leaves_of_opensQueue) fun a => ?_
      split
      · exact Prog.only_pure _
      · exact Prog.only_bind (Prog.only_perform trivial) fun _ => Prog.only_pure _
  have honly : (cancel cfg k).Only (·.leaves id) := by
    refine Prog.only_bind (only_getJob hk) fun a => ?_
    cases a with
    | error e => exact Prog.only_pure _
    | ok record =>
      simp only
      split
      · exact Prog.only_pure _
      · refine Prog.only_bind (Prog.only_bind (Prog.only_perform trivial) fun _ => Prog.only_pure _)
          fun now => ?_
        refine Prog.only_bind (hdrop record) fun _ => ?_
        refine Prog.only_bind (only_request hk) fun _ => ?_
        refine Prog.only_bind (only_request hk) fun _ => ?_
        exact Prog.only_bind (leaves_updateJobState hk _ _) fun _ => Prog.only_pure _
  rw [Monitor.Conforms, Mover.prog, wp_map]
  refine wp_mono (Monitor.effect_mono _) _ (moving_elsewhere .away honly) ?_
  rintro _ _ (rfl | rfl) <;> rfl

/-- Where a process starts. -/
def Mover.stage (id : String) : Mover → Stage
  | .promote => .away
  | .cancel k => if k = id then .cancelling else .away

theorem moving_prog (m : Mover) :
    (moving cfg index id).Conforms (m.prog cfg index) (m.stage id) := by
  cases m with
  | promote => exact moving_promote
  | cancel k =>
    rw [Mover.stage]
    split
    · rename_i hk
      subst hk
      exact moving_cancel
    · rename_i hk
      exact moving_cancelOther hk

end

end OjsSqs
