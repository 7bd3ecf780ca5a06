import OjsSqs.Fetching.Reach
import OjsSqs.Lifecycle.Runs
import OjsSqs.Writes.Guards

/-! # Jobs that wait for an instant

Fetch does not look at the time. A job is withheld until `T` when nothing but a
marker that is due at `T` or later can bring it back into its queue: it has no
message, is not in the dead letter set and is not active. The operations keep a
job withheld until a promoter finds its marker due, and then `T` is over. -/
namespace OjsSqs
open Calls

/-- The writes that leave the job `id` withheld. -/
def Writes.withholding (id : String) : Writes where
  rewrite i x := i = id → x.state ≠ .available ∧ x.state ≠ .active
  create r := r.id ≠ id
  carry _ := True
  send job := job.id ≠ id
  mark _ i := i ≠ id
  bury i := i ≠ id

/-- The job waits for a marker, and none is due before `T`, in milliseconds. -/
structure Withheld (id : String) (T : Int) (w : World) : Prop where
  stored : ∃ r, w.store.jobs.lookup id = some r ∧ r.state ≠ .available ∧ r.state ≠ .active
  messages : w.sqs.messagesOf id = []
  dead : w.dead id = false
  due : ∀ i ms, (w.store.due i).lookup id = some ms → T ≤ ms

/-! ## One call -/

/-- Only a send of the job gives it a message. -/
theorem SqsState.act_unsent {cfg : Config} {id : String} {ch : Choice} {c : SqsCall}
    {q q' : SqsState} {a : Except AwsError c.Answer} (he : q.act ch c = some (a, q'))
    (hc : (Writes.withholding id).allows cfg (.sqs c)) (h : q.messagesOf id = []) :
    q'.messagesOf id = [] := by
  have hbatch : ∀ (url : String) (ms : List OutMessage) (q : SqsState),
      (∀ m ∈ ms, m.body.id ≠ id) → q.messagesOf id = [] → (q.sendBatch url ms).messagesOf id = [] := by
    intro url ms
    induction ms with
    | nil => exact fun q _ h => h
    | cons m ms ih =>
      intro q hms h
      refine ih (q.send url m) (fun m' hm' => hms m' (List.mem_cons_of_mem _ hm')) ?_
      rw [send_messagesOf, h, if_neg (hms m List.mem_cons_self)]
      rfl
  cases c with
  | createQueue url =>
    cases ch <;> simp only [act, reduceCtorEq] at he <;> cases he
    · exact (createQueue_messagesOf url id).trans h
    · exact h
  | sendMessage url m =>
    cases ch <;> simp only [act, reduceCtorEq] at he <;> cases he
    · rw [send_messagesOf, h, if_neg hc]
      rfl
    · exact h
  | sendMessageBatch url ms =>
    cases ch <;> simp only [act, reduceCtorEq] at he <;> cases he
    · exact hbatch url ms q hc h
    · exact h
    · refine hbatch url _ q (fun m hm => hc m ?_) h
      rw [acceptedEntries] at hm
      obtain ⟨e, he, rfl⟩ := List.mem_map.mp hm
      exact List.fst_mem_of_mem_zipIdx (List.mem_of_mem_filter he)
  | receiveMessage url max vis =>
    cases ch <;> simp only [act, reduceCtorEq] at he
    · cases he
      exact h
    · rename_i ids
      obtain ⟨-, he⟩ := Option.ite_none_right_eq_some.mp he
      cases he
      have hsub := receive_messagesOf (q := q) vis ids id
      rw [h] at hsub
      exact List.map_eq_nil_iff.mp (List.eq_nil_of_sublist_nil hsub)
  | deleteMessage url handle =>
    cases ch <;> simp only [act, reduceCtorEq] at he <;> cases he
    · rw [delete_eq, messagesOf_filter, h]
      rfl
    · exact h
  | changeMessageVisibility url handle vis =>
    cases ch <;> simp only [act, reduceCtorEq] at he <;> cases he
    · rw [changeVisibility_eq, messagesOf_map (same_showMessage url handle vis), h]
      rfl
    · exact h
  | getQueueArn url => cases ch <;> simp only [act, reduceCtorEq] at he <;> cases he <;> exact h
  | setRedrivePolicy url arn n =>
    cases ch <;> simp only [act, reduceCtorEq] at he <;> cases he <;> exact h

section
variable {cfg : Config} {ρ : Rules} {id : String} {T : Int} {w w' : World}

/-- A call that writes nothing of the job, or cancels it, leaves it withheld. -/
theorem Withheld.call {c : Call} {a : Answer c} (h : Withheld id T w)
    (hc : (Writes.withholding id).allows cfg c) (he : ρ.env c w a w') : Withheld id T w' := by
  cases c with
  | proc c =>
    have hst := Rules.env_proc_store he
    refine ⟨?_, ?_, ?_, ?_⟩
    · rw [hst]
      exact h.stored
    · rw [Rules.env_proc_sqs he]
      exact h.messages
    · rw [World.dead, hst]
      exact h.dead
    · rw [hst]
      exact h.due
  | sqs c =>
    obtain ⟨ch, q', -, hact, rfl⟩ := Rules.env_sqs he
    exact ⟨h.stored, SqsState.act_unsent hact hc h.messages, h.dead, h.due⟩
  | dynamo d =>
    obtain ⟨ch, s', -, hact, rfl⟩ := Rules.env_dynamo he
    rcases Store.act_cases hact with hrun | rfl
    · have hs : s' = (w.store.run d).2 := congrArg Prod.snd hrun
      subst hs
      cases d with
      | putJobItem r =>
        refine ⟨?_, h.messages, h.dead, h.due⟩
        obtain ⟨r', hr', hst⟩ := h.stored
        exact ⟨r', (AList.lookup_insert_ne (Ne.symm hc)).trans hr', hst⟩
      | updateJobItem i s us sk pk =>
        obtain ⟨x, hx, rfl, -⟩ := hc
        refine ⟨?_, h.messages, h.dead, h.due⟩
        obtain ⟨r, hr, hst⟩ := h.stored
        by_cases hi : i = id
        · subst hi
          exact ⟨_, AList.lookup_insert _, hx rfl⟩
        · exact ⟨r, (AList.lookup_insert_ne (Ne.symm hi)).trans hr, hst⟩
      | putDueItem i k ms =>
        refine ⟨h.stored, h.messages, h.dead, fun j ms' hj => ?_⟩
        by_cases hji : j = i
        · subst hji
          simp only [World.setStore, Store.run, Store.setDue, Function.update_self] at hj
          rw [AList.lookup_insert_ne (Ne.symm hc)] at hj
          exact h.due j ms' hj
        · simp only [World.setStore, Store.run, Store.setDue, Function.update_of_ne hji] at hj
          exact h.due j ms' hj
      | deleteDueItem i k =>
        refine ⟨h.stored, h.messages, h.dead, fun j ms' hj => ?_⟩
        by_cases hji : j = i
        · subst hji
          simp only [World.setStore, Store.run, Store.setDue, Function.update_self] at hj
          by_cases hk : id = k
          · rw [hk, AList.lookup_erase] at hj
            cases hj
          · rw [AList.lookup_erase_ne hk] at hj
            exact h.due j ms' hj
        · simp only [World.setStore, Store.run, Store.setDue, Function.update_of_ne hji] at hj
          exact h.due j ms' hj
      | putDeadLetterItem k =>
        refine ⟨h.stored, h.messages, ?_, h.due⟩
        have hd := w.addDead_dead k id
        rw [if_neg (Ne.symm hc)] at hd
        exact hd.trans h.dead
      | deleteDeadLetterItem k =>
        refine ⟨h.stored, h.messages, ?_, h.due⟩
        have hd := w.removeDead_dead k id
        by_cases hk : id = k
        · rw [if_pos hk] at hd
          exact hd
        · rw [if_neg hk] at hd
          exact hd.trans h.dead
      | putQueueItem name =>
        simp only [Store.run]
        split <;> exact ⟨h.stored, h.messages, h.dead, h.due⟩
      | putUniqueItem fp k ttl =>
        simp only [Store.run]
        split <;> exact ⟨h.stored, h.messages, h.dead, h.due⟩
      | updateWorkflowItem k us =>
        simp only [Store.run]
        split <;> exact ⟨h.stored, h.messages, h.dead, h.due⟩
      | putCronLockItem name ts ttl =>
        simp only [Store.run]
        split <;> exact ⟨h.stored, h.messages, h.dead, h.due⟩
      | _ => exact ⟨h.stored, h.messages, h.dead, h.due⟩
    · exact ⟨h.stored, h.messages, h.dead, h.due⟩

theorem guards_withheld (id : String) (T : Int) :
    Guards cfg ρ (.withholding id) fun w => Withheld id T w ∧ w.NamedJobs where
  keeps _ _ _ _ hc h he := ⟨h.1.call hc he, Rules.env_named he h.2⟩
  stores w job h hn _ _ := by
    have hne : job.id ≠ id := by
      rintro rfl
      obtain ⟨r, hr, -⟩ := h.1.stored
      rw [hn] at hr
      cases hr
    exact ⟨fun _ _ _ => hne, hne, fun _ _ => hne⟩
  named _ h := h.2

end

end OjsSqs
