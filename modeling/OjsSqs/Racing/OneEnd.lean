import OjsSqs.Atomic.Steps
import OjsSqs.Racing.Endings

/-! # An active job ends once

Any number of Ack, Nack and Cancel calls on one active job run next to each
other. When no call makes its state check while another is between its check
and its write, the job is ended once: by one Ack or one Nack, or by a Cancel,
and a Cancel after a Nack that has left the job retryable. -/
namespace OjsSqs
open Calls

variable {ι : Type}

/-- The state of the record a read has found. -/
def foundState : Event ι Call Answer → Option JobState
  | ⟨_, .dynamo (.getJobItem _), .ok (some r)⟩ => some r.state
  | _ => none

/-- The call `i` has passed its check and has not written the record yet. -/
def CheckOpen (id : String) (op : ι → Ending) (tr : List (Event ι Call Answer)) (i : ι) : Prop :=
  (∃ e ∈ tr, e.thread = i ∧ ∃ s, foundState e = some s ∧ (op i).accepts s = true) ∧
    ∀ e ∈ tr, e.thread = i → e.call.writesJob ≠ some id

/-- No call begins, with its check, while another's check is open. -/
def ChecksApart (id : String) (op : ι → Ending) (tr : List (Event ι Call Answer)) (_ : World)
    (e : Event ι Call Answer) : Prop :=
  (∀ e' ∈ tr, e'.thread ≠ e.thread) → ∀ i, i ≠ e.thread → ¬CheckOpen id op tr i

/-! ## The state of the record -/

theorem Ending.accepts_cancelled (o : Ending) : o.accepts .cancelled = false := by cases o <;> rfl

/-- After an Ack or a Nack only a Cancel passes its check, when the job waits
for a retry. -/
theorem Ending.accepts_written {o o' : Ending} {s : JobState} (hw : o'.writes s = true)
    (hs : s ≠ .cancelled) (ha : o.accepts s = true) : o = .cancel ∧ s = .retryable := by
  have hs : s = .completed ∨ s = .retryable ∨ s = .discarded := by
    cases o' with
    | ack result => exact .inl (of_decide_eq_true hw)
    | nack jobErr => exact .inr (of_decide_eq_true hw)
    | cancel => exact absurd (of_decide_eq_true hw) hs
  rcases hs with rfl | rfl | rfl <;> cases o <;> first | exact ⟨rfl, rfl⟩ | cases ha

section
variable [DecidableEq ι] {op : ι → Ending} {t : ι → Closing} {s : JobState} {i : ι}

/-- The state of the record is that of the last write, and who may have
written it and who may be about to write it. -/
structure Stands (op : ι → Ending) (t : ι → Closing) (s : JobState) : Prop where
  untouched : (∀ i a, t i ≠ .wrote a) → s = .active
  ended : ∀ i a, t i = .wrote a → a.state ≠ .cancelled →
    s = a.state ∨ s = .cancelled ∧ a.state = .retryable
  cancelled : ∀ i a, t i = .wrote a → a.state = .cancelled → s = .cancelled
  one : ∀ i j a b, t i = .wrote a → t j = .wrote b →
    (a.state = .cancelled ↔ b.state = .cancelled) → i = j
  kinds : ∀ i a, t i = .wrote a → (op i).writes a.state = true
  checked : ∀ i, t i = .checked → (op i).accepts s = true
  alone : ∀ i j, t i = .checked → t j = .checked → i = j

omit [DecidableEq ι] in
/-- A call that is about to write finds only a Nack for a retry before it, and
only if it is a Cancel. -/
theorem Stands.before_write (h : Stands op t s) (hi : t i = .checked) {j : ι} {b : Written}
    (hj : t j = .wrote b) : op i = .cancel ∧ b.state = .retryable := by
  have hacc := h.checked i hi
  have hrefuse : s ≠ .cancelled := fun hs => by
    rw [hs, Ending.accepts_cancelled] at hacc
    cases hacc
  have hnot : b.state ≠ .cancelled := fun hb => hrefuse (h.cancelled j b hj hb)
  rcases h.ended j b hj hnot with hs | ⟨hs, -⟩
  · exact Ending.accepts_written (h.kinds j b hj) hnot (hs ▸ hacc)
  · exact absurd hs hrefuse

/-- The call writes the state it aims at. -/
theorem Stands.write (h : Stands op t s) (hi : t i = .checked) {s' : JobState}
    (hw : (op i).writes s' = true) :
    Stands op (Function.update t i (.wrote { state := s' })) s' := by
  have hcancel : op i = .cancel → s' = .cancelled := fun ho => by
    rw [ho] at hw
    exact of_decide_eq_true hw
  have hcases : ∀ j a, Function.update t i (Closing.wrote { state := s' }) j = .wrote a →
      j = i ∧ a.state = s' ∨ j ≠ i ∧ t j = .wrote a ∧ op i = .cancel ∧ a.state = .retryable := by
    intro j a hj
    by_cases hji : j = i
    · rw [hji, Function.update_self] at hj
      cases hj
      exact .inl ⟨hji, rfl⟩
    · rw [Function.update_of_ne hji] at hj
      exact .inr ⟨hji, hj, h.before_write hi hj⟩
  have hchecked : ∀ j, Function.update t i (Closing.wrote { state := s' }) j ≠ .checked := by
    intro j hj
    by_cases hji : j = i
    · rw [hji, Function.update_self] at hj
      cases hj
    · rw [Function.update_of_ne hji] at hj
      exact hji (h.alone j i hj hi)
  refine ⟨fun hno => absurd (Function.update_self ..) (hno i _), fun j a hj _ => ?_,
    fun j a hj ha => ?_, fun j k a b hj hk hiff => ?_, fun j a hj => ?_,
    fun j hj => absurd hj (hchecked j), fun j _ hj => absurd hj (hchecked j)⟩
  · rcases hcases j a hj with ⟨-, ha⟩ | ⟨-, -, ho, ha⟩
    · exact .inl ha.symm
    · exact .inr ⟨hcancel ho, ha⟩
  · rcases hcases j a hj with ⟨-, ha'⟩ | ⟨-, -, -, ha'⟩
    · rw [← ha', ha]
    · rw [ha'] at ha
      cases ha
  · rcases hcases j a hj with ⟨hji, ha⟩ | ⟨-, hj', ho, ha⟩ <;>
      rcases hcases k b hk with ⟨hki, hb⟩ | ⟨-, hk', ho', hb⟩
    · rw [hji, hki]
    · rw [ha, hcancel ho', hb] at hiff
      exact absurd (hiff.mp rfl) (by decide)
    · rw [hb, hcancel ho, ha] at hiff
      exact absurd (hiff.mpr rfl) (by decide)
    · exact h.one j k a b hj' hk' hiff
  · rcases hcases j a hj with ⟨hji, ha⟩ | ⟨-, hj', -, -⟩
    · rw [hji, ha]
      exact hw
    · exact h.kinds j a hj'

/-- A call passes its check while no other is open. -/
theorem Stands.check (h : Stands op t s) (hi : t i = .start) (hacc : (op i).accepts s = true)
    (hfree : ∀ j, t j ≠ .checked) : Stands op (Function.update t i .checked) s := by
  have hwrote : ∀ j a, Function.update t i Closing.checked j = .wrote a → t j = .wrote a := by
    intro j a hj
    by_cases hji : j = i
    · rw [hji, Function.update_self] at hj
      cases hj
    · rwa [Function.update_of_ne hji] at hj
  have hchecked : ∀ j, Function.update t i Closing.checked j = .checked → j = i := by
    intro j hj
    by_cases hji : j = i
    · exact hji
    · rw [Function.update_of_ne hji] at hj
      exact absurd hj (hfree j)
  refine ⟨fun hno => h.untouched fun j a hj => hno j a ?_, fun j a hj => h.ended j a (hwrote j a hj),
    fun j a hj => h.cancelled j a (hwrote j a hj),
    fun j k a b hj hk => h.one j k a b (hwrote j a hj) (hwrote k b hk),
    fun j a hj => h.kinds j a (hwrote j a hj), fun j hj => by rw [hchecked j hj]; exact hacc,
    fun j k hj hk => (hchecked j hj).trans (hchecked k hk).symm⟩
  have hji : j ≠ i := fun hji => by
    rw [hji, hi] at hj
    cases hj
  rw [Function.update_of_ne hji]
  exact hj

/-- A call that moves neither to a check nor to a write. -/
theorem Stands.stay (h : Stands op t s) {x : Closing} (hx : x ≠ .checked)
    (hw : ∀ a, x = .wrote a → ∃ b, t i = .wrote b ∧ b.state = a.state)
    (hback : ∀ b, t i = .wrote b → ∃ a, x = .wrote a) :
    Stands op (Function.update t i x) s := by
  have hwrote : ∀ j a, Function.update t i x j = .wrote a →
      ∃ b, t j = .wrote b ∧ b.state = a.state := by
    intro j a hj
    by_cases hji : j = i
    · rw [hji, Function.update_self] at hj
      rw [hji]
      exact hw a hj
    · rw [Function.update_of_ne hji] at hj
      exact ⟨a, hj, rfl⟩
  have hchecked : ∀ j, Function.update t i x j = .checked → t j = .checked := by
    intro j hj
    by_cases hji : j = i
    · rw [hji, Function.update_self] at hj
      exact absurd hj hx
    · rwa [Function.update_of_ne hji] at hj
  refine ⟨fun hno => h.untouched fun j b hj => ?_, fun j a hj ha => ?_, fun j a hj ha => ?_,
    fun j k a b hj hk hiff => ?_, fun j a hj => ?_, fun j hj => h.checked j (hchecked j hj),
    fun j k hj hk => h.alone j k (hchecked j hj) (hchecked k hk)⟩
  · by_cases hji : j = i
    · rw [hji] at hj
      obtain ⟨a, ha⟩ := hback b hj
      exact hno i a (by rw [Function.update_self, ha])
    · exact hno j b (by rw [Function.update_of_ne hji, hj])
  · obtain ⟨b, hb, hs⟩ := hwrote j a hj
    rw [← hs] at ha ⊢
    exact h.ended j b hb ha
  · obtain ⟨b, hb, hs⟩ := hwrote j a hj
    exact h.cancelled j b hb (hs.trans ha)
  · obtain ⟨a', ha', hsa⟩ := hwrote j a hj
    obtain ⟨b', hb', hsb⟩ := hwrote k b hk
    rw [← hsa, ← hsb] at hiff
    exact h.one j k a' b' ha' hb' hiff
  · obtain ⟨b, hb, hs⟩ := hwrote j a hj
    rw [← hs]
    exact h.kinds j b hb

end

/-! ## The pool of the calls -/

namespace Closing

/-- The call has counted the queue up. -/
def counted : Closing → Bool
  | .wrote a => a.counted
  | _ => false

/-- The call has called `AdvanceWorkflow`. -/
def advanced : Closing → Bool
  | .wrote a => a.advanced
  | _ => false

end Closing

/-- The first call of `AdvanceWorkflow`. -/
def Call.advances : Call → Bool
  | .dynamo (.getWorkflowItem _) => true
  | _ => false

/-- The calls of `AdvanceWorkflow` in a run. -/
def advanceCalls (tr : List (Event ι Call Answer)) : List (Event ι Call Answer) :=
  tr.filter fun e => e.call.advances

theorem advanceCalls_append (tr : List (Event ι Call Answer)) (e : Event ι Call Answer) :
    advanceCalls (tr ++ [e]) = advanceCalls tr ++ if e.call.advances then [e] else [] := by
  rw [advanceCalls, List.filter_append, List.filter_singleton, advanceCalls]
  cases e.call.advances <;> rfl

/-- The completed counter of a queue. -/
def World.completedOf (queue : String) (w : World) : Nat := (w.store.queueItem queue).completed

section
variable [DecidableEq ι]

/-- The call `i` has written the state `s`. -/
def HasWritten (id : String) (tr : List (Event ι Call Answer)) (i : ι) (s : JobState) : Prop :=
  ∃ e ∈ tr, e.thread = i ∧ ∃ us sk pk, e.call = .dynamo (.updateJobItem id s us sk pk)

/-- What the calls keep. -/
structure Closed (id : String) (op : ι → Ending) (w₀ : World) (tr : List (Event ι Call Answer))
    (w : World) (t : ι → Closing) : Prop where
  record : ∃ r, w.store.jobs.lookup id = some r ∧ Stands op t r.state
  here : ∀ i, t i ≠ .gone
  made : ∀ i a u, t i = .wrote a → a.made = some u → u ≠ id
  marks : ∀ i, (t i).counted = true ∨ (t i).advanced = true →
    ∃ a, t i = .wrote a ∧ a.state ≠ .cancelled
  early : ∀ i, t i = .start → ∀ e ∈ tr, e.thread ≠ i
  window : ∀ i, t i = .checked → CheckOpen id op tr i
  written : ∀ i a, t i = .wrote a → HasWritten id tr i a.state
  counter : ∀ queue, w.completedOf queue = w₀.completedOf queue ∨
    (∃ i, (t i).counted = true) ∧ w.completedOf queue = w₀.completedOf queue + 1
  advance : advanceCalls tr = [] ∨
    (∃ i, (t i).advanced = true) ∧ (advanceCalls tr).length = 1

variable {id : String} {op : ι → Ending} {w₀ w w' : World} {tr : List (Event ι Call Answer)}
  {t : ι → Closing} {i : ι} {c : Call} {r : Answer c} {ρ : Rules} {x : Closing}

omit [DecidableEq ι] in
theorem CheckOpen.append (h : CheckOpen id op tr i) {j : ι}
    (hc : j = i → c.writesJob ≠ some id) : CheckOpen id op (tr ++ [⟨j, c, r⟩]) i := by
  obtain ⟨⟨e, he, hpass⟩, hno⟩ := h
  refine ⟨⟨e, List.mem_append_left _ he, hpass⟩, fun e he hi => ?_⟩
  rcases List.mem_append.mp he with he | he
  · exact hno e he hi
  · rw [List.mem_singleton.mp he] at hi ⊢
    exact hc hi

omit [DecidableEq ι] in
theorem HasWritten.append {s : JobState} (h : HasWritten id tr i s) (e : Event ι Call Answer) :
    HasWritten id (tr ++ [e]) i s := by
  obtain ⟨e', he', hw⟩ := h
  exact ⟨e', List.mem_append_left _ he', hw⟩

/-- The counter of a queue only grows with the call that counts. -/
theorem Rules.env_completedOf {c : Call} {r : Answer c} (hc : ∀ q, c ≠ .dynamo (.addCompleted q))
    (he : ρ.env c w r w') (queue : String) : w'.completedOf queue = w.completedOf queue := by
  refine Rules.env_frame (fun s => (s.queueItem queue).completed) (fun d hd => ?_) he
  subst hd
  cases d with
  | addCompleted q => exact absurd rfl (hc q)
  | putQueueItem name =>
    simp only [Store.run]
    split
    · rfl
    · rename_i hnone
      by_cases hq : queue = name
      · subst hq
        simp [Store.queueItem, hnone, AList.lookup_insert]
      · simp [Store.queueItem, AList.lookup_insert_ne hq]
  | setPausedItem name b =>
    by_cases hq : queue = name
    · subst hq
      simp [Store.run, Store.queueItem, AList.lookup_insert]
    · simp [Store.run, Store.queueItem, AList.lookup_insert_ne hq]
  | putUniqueItem fp jid ttl =>
    simp only [Store.run]
    split <;> rfl
  | updateWorkflowItem wf us =>
    simp only [Store.run]
    split <;> rfl
  | putCronLockItem name ts ttl =>
    simp only [Store.run]
    split <;> rfl
  | _ => rfl

/-- A step of the call `i`, with what it does to the two counts. -/
theorem Closed.move (h : Closed id op w₀ tr w t) {y : JobRecord}
    (hrec : w'.store.jobs.lookup id = some y) (hst : Stands op (Function.update t i x) y.state)
    (hx : x ≠ .gone) (hstart : x ≠ .start)
    (hmade : ∀ a u, x = .wrote a → a.made = some u → u ≠ id)
    (hmark : x.counted = true ∨ x.advanced = true → ∃ a, x = .wrote a ∧ a.state ≠ .cancelled)
    (hwindow : x = .checked → CheckOpen id op (tr ++ [⟨i, c, r⟩]) i)
    (hwritten : ∀ a, x = .wrote a → HasWritten id (tr ++ [⟨i, c, r⟩]) i a.state)
    (hcounter : ∀ queue, w'.completedOf queue = w₀.completedOf queue ∨
      (∃ j, (Function.update t i x j).counted = true) ∧
        w'.completedOf queue = w₀.completedOf queue + 1)
    (hadvance : advanceCalls (tr ++ [⟨i, c, r⟩]) = [] ∨
      (∃ j, (Function.update t i x j).advanced = true) ∧
        (advanceCalls (tr ++ [⟨i, c, r⟩])).length = 1) :
    Closed id op w₀ (tr ++ [⟨i, c, r⟩]) w' (Function.update t i x) := by
  refine ⟨⟨y, hrec, hst⟩, fun j => ?_, fun j a u hj => ?_, fun j hj => ?_, fun j hj e he => ?_,
    fun j hj => ?_, fun j a hj => ?_, hcounter, hadvance⟩
  · by_cases hji : j = i
    · rw [hji, Function.update_self]
      exact hx
    · rw [Function.update_of_ne hji]
      exact h.here j
  · by_cases hji : j = i
    · rw [hji, Function.update_self] at hj
      exact hmade a u hj
    · rw [Function.update_of_ne hji] at hj
      exact h.made j a u hj
  · by_cases hji : j = i
    · rw [hji, Function.update_self] at hj ⊢
      exact hmark hj
    · rw [Function.update_of_ne hji] at hj ⊢
      exact h.marks j hj
  · by_cases hji : j = i
    · rw [hji, Function.update_self] at hj
      exact absurd hj hstart
    · rw [Function.update_of_ne hji] at hj
      rcases List.mem_append.mp he with he | he
      · exact h.early j hj e he
      · rw [List.mem_singleton.mp he]
        exact Ne.symm hji
  · by_cases hji : j = i
    · subst hji
      rw [Function.update_self] at hj
      exact hwindow hj
    · rw [Function.update_of_ne hji] at hj
      exact (h.window j hj).append fun hij => absurd hij.symm hji
  · by_cases hji : j = i
    · subst hji
      rw [Function.update_self] at hj
      exact hwritten a hj
    · rw [Function.update_of_ne hji] at hj
      exact (h.written j a hj).append _

/-- A call that does not count the queue up. -/
theorem Closed.uncounted (h : Closed id op w₀ tr w t) (hx : x.counted = (t i).counted)
    (hc : ∀ q, c ≠ .dynamo (.addCompleted q)) (he : ρ.env c w r w') (queue : String) :
    w'.completedOf queue = w₀.completedOf queue ∨
      (∃ j, (Function.update t i x j).counted = true) ∧
        w'.completedOf queue = w₀.completedOf queue + 1 := by
  rw [Rules.env_completedOf hc he]
  refine (h.counter queue).imp_right fun ⟨⟨j, hj⟩, hq⟩ => ⟨⟨j, ?_⟩, hq⟩
  by_cases hji : j = i
  · rw [hji, Function.update_self, hx, ← hji]
    exact hj
  · rw [Function.update_of_ne hji]
    exact hj

/-- A call that does not call `AdvanceWorkflow`. -/
theorem Closed.unadvanced (h : Closed id op w₀ tr w t) (hx : x.advanced = (t i).advanced)
    (hc : c.advances = false) : advanceCalls (tr ++ [⟨i, c, r⟩]) = [] ∨
      (∃ j, (Function.update t i x j).advanced = true) ∧
        (advanceCalls (tr ++ [⟨i, c, r⟩])).length = 1 := by
  rw [advanceCalls_append]
  simp only [hc, Bool.false_eq_true, if_false, List.append_nil]
  refine h.advance.imp_right fun ⟨⟨j, hj⟩, hlen⟩ => ⟨⟨j, ?_⟩, hlen⟩
  by_cases hji : j = i
  · rw [hji, Function.update_self, hx, ← hji]
    exact hj
  · rw [Function.update_of_ne hji]
    exact hj

/-- A call that changes neither the record nor where its thread stands. -/
theorem Closed.quiet (h : Closed id op w₀ tr w t) (hx : t i ≠ .start)
    (hc : c.writesJob ≠ some id) (hadd : ∀ q, c ≠ .dynamo (.addCompleted q))
    (hadv : c.advances = false) (he : ρ.env c w r w') :
    Closed id op w₀ (tr ++ [⟨i, c, r⟩]) w' (Function.update t i (t i)) := by
  obtain ⟨y, hy, hst⟩ := h.record
  exact h.move ((Rules.env_job hc he).trans hy) (by rwa [Function.update_eq_self]) (h.here i) hx
    (h.made i) (h.marks i) (fun hs => (h.window i hs).append fun _ => hc)
    (fun a ha => (h.written i a ha).append _) (h.uncounted rfl hadd he) (h.unadvanced rfl hadv)

variable (hρ : ρ.faults = false)
include hρ

omit [DecidableEq ι] in
theorem Closed.readJob [DecidableEq ι] (h : Closed id op w₀ tr w t)
    {a : Except AwsError (Option JobRecord)} (he : ρ.env (.dynamo (.getJobItem id)) w a w') :
    ∃ y, a = .ok (some y) ∧ w' = w ∧ w.store.jobs.lookup id = some y ∧ Stands op t y.state := by
  obtain ⟨ha, hw⟩ := Rules.env_run hρ rfl he
  obtain ⟨y, hy, hst⟩ := h.record
  rw [Store.run, hy] at ha
  exact ⟨y, ha, hw, hy, hst⟩

/-- The check. -/
theorem Closed.check (h : Closed id op w₀ tr w t) (hi : t i = .start)
    (hc : c = .dynamo (.getJobItem id)) (he : ρ.env c w r w')
    (hok : ChecksApart id op tr w ⟨i, c, r⟩) :
    Closed id op w₀ (tr ++ [⟨i, c, r⟩]) w'
      (Function.update t i ((closing id (op i)).next .start c r)) := by
  subst hc
  obtain ⟨y, rfl, rfl, hy, hst⟩ := h.readJob hρ he
  have hfirst := h.early i hi
  have hadd : ∀ q, Call.dynamo (.getJobItem id) ≠ .dynamo (.addCompleted q) := fun _ h => by cases h
  cases hacc : (op i).accepts y.state with
  | true =>
    rw [show (closing id (op i)).next .start (.dynamo (.getJobItem id)) (.ok (some y)) = .checked
      from if_pos hacc]
    have hfree : ∀ j, t j ≠ .checked := fun j hj => by
      have hji : j ≠ i := fun hji => by
        rw [hji, hi] at hj
        cases hj
      exact hok hfirst j hji (h.window j hj)
    refine h.move hy (hst.check hi hacc hfree) (fun h => by cases h) (fun h => by cases h)
      (fun _ _ h => by cases h) (fun h => by rcases h with h | h <;> cases h) (fun _ => ?_)
      (fun _ h => by cases h) (h.uncounted (by rw [hi]; rfl) hadd he) (h.unadvanced (by rw [hi]; rfl) (by rfl))
    refine ⟨⟨_, List.mem_append_right _ (List.mem_singleton_self _), rfl, y.state, rfl, hacc⟩,
      fun e he' hthread => ?_⟩
    rcases List.mem_append.mp he' with he' | he'
    · exact absurd hthread (hfirst e he')
    · rw [List.mem_singleton.mp he']
      exact fun h => by cases h
  | false =>
    rw [show (closing id (op i)).next .start (.dynamo (.getJobItem id)) (.ok (some y)) = .refused
      from if_neg (by rw [hacc]; decide)]
    refine h.move hy (hst.stay (fun h => by cases h) (fun _ h => by cases h) fun b hb => ?_)
      (fun h => by cases h) (fun h => by cases h) (fun _ _ h => by cases h)
      (fun h => by rcases h with h | h <;> cases h) (fun h => by cases h)
      (fun _ h => by cases h) (h.uncounted (by rw [hi]; rfl) hadd he) (h.unadvanced (by rw [hi]; rfl) (by rfl))
    rw [hi] at hb
    cases hb

/-- Between check and write. -/
theorem Closed.close (h : Closed id op w₀ tr w t) (hi : t i = .checked)
    (hc : (op i).closes id c) (he : ρ.env c w r w') :
    Closed id op w₀ (tr ++ [⟨i, c, r⟩]) w'
      (Function.update t i ((closing id (op i)).next .checked c r)) := by
  have hx : t i ≠ .start := by
    rw [hi]
    exact fun h => by cases h
  rcases hc with hc | ⟨k, rfl⟩ | rfl | ⟨s, us, sk, pk, rfl, hw⟩
  · have hn : (closing id (op i)).next .checked c r = t i := by
      cases c with
      | dynamo d => cases hc
      | sqs c => exact hi.symm
      | proc c => exact hi.symm
    rw [hn]
    cases c with
    | dynamo d => cases hc
    | sqs c => exact h.quiet hx (fun h => by cases h) (fun _ h => by cases h) rfl he
    | proc c => exact h.quiet hx (fun h => by cases h) (fun _ h => by cases h) rfl he
  · rw [show (closing id (op i)).next .checked (.dynamo (.deleteDueItem k id)) r = t i from hi.symm]
    exact h.quiet hx (fun h => by cases h) (fun _ h => by cases h) rfl he
  · obtain ⟨y, rfl, rfl, -, -⟩ := h.readJob hρ he
    rw [show (closing id (op i)).next .checked (.dynamo (.getJobItem id)) (.ok (some y)) = t i
      from hi.symm]
    exact h.quiet hx (fun h => by cases h) (fun _ h => by cases h) rfl he
  · obtain ⟨y, hy, hst⟩ := h.record
    obtain ⟨rfl, rfl⟩ := Rules.env_run hρ rfl he
    have hrec : (w.setStore (w.store.run (.updateJobItem id s us sk pk)).2).store.jobs.lookup id =
        some (y.update s us sk pk) := by
      simp only [Store.run, hy, World.setStore, AList.lookup_insert, Option.getD_some]
    show Closed id op w₀ _ _ (Function.update t i (.wrote { state := s }))
    refine h.move hrec (hst.write hi hw) (fun h => by cases h) (fun h => by cases h)
      (fun a u ha hu => by cases ha; cases hu) (fun h => by rcases h with h | h <;> cases h)
      (fun h => by cases h) (fun a ha => ?_)
      (h.uncounted (by rw [hi]; rfl) (fun _ h => by cases h) he)
      (h.unadvanced (by rw [hi]; rfl) (by rfl))
    cases ha
    exact ⟨_, List.mem_append_right _ (List.mem_singleton_self _), rfl, us, sk, pk, rfl⟩

/-- The one call that counts the queue up. -/
theorem Closed.count (h : Closed id op w₀ tr w t) {a : Written} (hi : t i = .wrote a)
    {q : String} (hs : a.state = .completed) (ha : a.counted = false) {u : Except AwsError Unit}
    (he : ρ.env (.dynamo (.addCompleted q)) w u w') :
    Closed id op w₀ (tr ++ [⟨i, .dynamo (.addCompleted q), u⟩]) w'
      (Function.update t i (.wrote { a with counted := true })) := by
  obtain ⟨y, hy, hst⟩ := h.record
  have hcancel : a.state ≠ .cancelled := by rw [hs]; decide
  have hnone : ¬∃ j, (t j).counted = true := fun ⟨j, hj⟩ => by
    obtain ⟨b, hb, hbs⟩ := h.marks j (.inl hj)
    have hji : j = i := hst.one j i b a hb hi ⟨fun h => absurd h hbs, fun h => absurd h hcancel⟩
    rw [hji, hi] at hj
    rw [show a.counted = true from hj] at ha
    cases ha
  have hstay : Stands op (Function.update t i (.wrote { a with counted := true })) y.state :=
    hst.stay (fun h => by cases h) (fun b hb => ⟨a, hi, by cases hb; rfl⟩) fun b _ => ⟨_, rfl⟩
  refine h.move ((Rules.env_job (fun h => by cases h) he).trans hy) hstay (fun h => by cases h)
    (fun h => by cases h) (fun b v hb hv => ?_) (fun _ => ⟨_, rfl, hcancel⟩) (fun h => by cases h)
    (fun b hb => by cases hb; exact (h.written i a hi).append _) (fun queue => ?_)
    (h.unadvanced (by rw [hi]; rfl) (by rfl))
  · cases hb
    exact h.made i a v hi hv
  · have hold := (h.counter queue).resolve_right fun hc => hnone hc.1
    obtain ⟨-, rfl⟩ := Rules.env_run hρ rfl he
    by_cases hq : queue = q
    · subst hq
      refine .inr ⟨⟨i, by rw [Function.update_self]; rfl⟩, ?_⟩
      rw [← hold]
      simp [World.completedOf, World.setStore, Store.run, Store.queueItem, AList.lookup_insert]
    · refine .inl ?_
      rw [← hold]
      simp [World.completedOf, World.setStore, Store.run, Store.queueItem, AList.lookup_insert_ne hq]

omit hρ in
/-- The one call of `AdvanceWorkflow`. -/
theorem Closed.callAdvance (h : Closed id op w₀ tr w t) {a : Written} (hi : t i = .wrote a)
    {wf : String} (hs : a.state ≠ .cancelled) (ha : a.advanced = false)
    {u : Except AwsError (Option WorkflowRecord)} (he : ρ.env (.dynamo (.getWorkflowItem wf)) w u w') :
    Closed id op w₀ (tr ++ [⟨i, .dynamo (.getWorkflowItem wf), u⟩]) w'
      (Function.update t i (.wrote { a with advanced := true })) := by
  obtain ⟨y, hy, hst⟩ := h.record
  have hnone : ¬∃ j, (t j).advanced = true := fun ⟨j, hj⟩ => by
    obtain ⟨b, hb, hbs⟩ := h.marks j (.inr hj)
    have hji : j = i := hst.one j i b a hb hi ⟨fun h => absurd h hbs, fun h => absurd h hs⟩
    rw [hji, hi] at hj
    rw [show a.advanced = true from hj] at ha
    cases ha
  have hstay : Stands op (Function.update t i (.wrote { a with advanced := true })) y.state :=
    hst.stay (fun h => by cases h) (fun b hb => ⟨a, hi, by cases hb; rfl⟩) fun b _ => ⟨_, rfl⟩
  refine h.move ((Rules.env_job (fun h => by cases h) he).trans hy) hstay (fun h => by cases h)
    (fun h => by cases h) (fun b v hb hv => ?_) (fun _ => ⟨_, rfl, hs⟩) (fun h => by cases h)
    (fun b hb => by cases hb; exact (h.written i a hi).append _)
    (h.uncounted (by rw [hi]; rfl) (fun _ h => by cases h) he) (.inr ⟨⟨i, ?_⟩, ?_⟩)
  · cases hb
    exact h.made i a v hi hv
  · rw [Function.update_self]
    rfl
  · rw [advanceCalls_append, h.advance.resolve_right fun hc => hnone hc.1]
    rfl

omit hρ in
/-- A new identifier is not the one of the job. -/
theorem Closed.identify (h : Closed id op w₀ tr w t) {a : Written} (hi : t i = .wrote a)
    {u : String} (he : ρ.env (.proc .newUUIDv7) w u w') :
    Closed id op w₀ (tr ++ [⟨i, .proc .newUUIDv7, u⟩]) w'
      (Function.update t i (.wrote { a with made := some u })) := by
  obtain ⟨y, hy, hst⟩ := h.record
  have hstay : Stands op (Function.update t i (.wrote { a with made := some u })) y.state :=
    hst.stay (fun h => by cases h) (fun b hb => ⟨a, hi, by cases hb; rfl⟩) fun b _ => ⟨_, rfl⟩
  refine h.move ((Rules.env_job (fun h => by cases h) he).trans hy) hstay (fun h => by cases h)
    (fun h => by cases h) (fun b v hb hv => ?_) (fun hm => ⟨_, rfl, ?_⟩) (fun h => by cases h)
    (fun b hb => by cases hb; exact (h.written i a hi).append _)
    (h.uncounted (by rw [hi]; rfl) (fun _ h => by cases h) he) (h.unadvanced (by rw [hi]; rfl) (by rfl))
  · cases hb
    cases hv
    rintro rfl
    rw [Rules.env_newUUIDv7 he] at hy
    cases hy
  · obtain ⟨b, hb, hbs⟩ := h.marks i (by rw [hi]; exact hm)
    rw [hi] at hb
    cases hb
    exact hbs

/-- After the write. -/
theorem Closed.follow (h : Closed id op w₀ tr w t) {a : Written} (hi : t i = .wrote a)
    (hc : a.allows c) (he : ρ.env c w r w') :
    Closed id op w₀ (tr ++ [⟨i, c, r⟩]) w' (Function.update t i (.wrote (a.next c r))) := by
  have hx : t i ≠ .start := by
    rw [hi]
    exact fun h => by cases h
  have hquiet : Closing.wrote (a.next c r) = t i → c.writesJob ≠ some id →
      (∀ q, c ≠ .dynamo (.addCompleted q)) → c.advances = false →
      Closed id op w₀ (tr ++ [⟨i, c, r⟩]) w' (Function.update t i (.wrote (a.next c r))) := by
    intro hn hw hadd hadv
    rw [hn]
    exact h.quiet hx hw hadd hadv he
  cases c with
  | dynamo d =>
    cases d with
    | addCompleted q => exact h.count hρ hi hc.1 hc.2 he
    | getWorkflowItem wf => exact h.callAdvance hi hc.1 hc.2 he
    | putJobItem y =>
      exact hquiet hi.symm (fun hw => h.made i a y.id hi hc (Option.some.inj hw))
        (fun _ h => by cases h) rfl
    | updateJobItem => cases hc
    | _ => exact hquiet hi.symm (fun h => by cases h) (fun _ h => by cases h) rfl
  | sqs c => exact hquiet hi.symm (fun h => by cases h) (fun _ h => by cases h) rfl
  | proc c =>
    cases c with
    | newUUIDv7 => exact h.identify hi he
    | _ => exact hquiet hi.symm (fun h => by cases h) (fun _ h => by cases h) rfl

theorem Closed.next (h : Closed id op w₀ tr w t) (hc : (closing id (op i)).allow (t i) c)
    (he : ρ.env c w r w') (hok : ChecksApart id op tr w ⟨i, c, r⟩) :
    Closed id op w₀ (tr ++ [⟨i, c, r⟩]) w'
      (Monitor.track (fun i => closing id (op i)) t ⟨i, c, r⟩) := by
  rw [Monitor.track]
  simp only
  cases hi : t i with
  | start =>
    rw [hi] at hc
    exact h.check hρ hi hc he hok
  | checked =>
    rw [hi] at hc
    exact h.close hρ hi hc he
  | wrote a =>
    rw [hi] at hc
    exact h.follow hρ hi hc he
  | refused =>
    rw [hi] at hc
    exact hc.elim
  | gone => exact absurd hi (h.here i)

end

/-! ## One end -/

/-- The job is ended by one Ack or Nack and cancelled by one Cancel; both only
when the Nack has left it retryable, and then it ends cancelled. The queue is
counted up once at most, and `AdvanceWorkflow` called once at most. -/
structure EndsOnce (id : String) (op : ι → Ending) (w₀ : World) (tr : List (Event ι Call Answer))
    (P : Pool ι World Call Answer (Except Error Unit)) : Prop where
  one : ∀ i j, P.Returned i (.ok ()) → P.Returned j (.ok ()) →
    (op i).isCancel = (op j).isCancel → i = j
  both : ∀ i j, P.Returned i (.ok ()) → P.Returned j (.ok ()) →
    (op i).isCancel = false → (op j).isCancel = true →
    HasWritten id tr i .retryable ∧
      ∃ r, P.world.store.jobs.lookup id = some r ∧ r.state = .cancelled
  counter : ∀ queue, P.world.completedOf queue ≤ w₀.completedOf queue + 1
  advance : (advanceCalls tr).length ≤ 1

theorem Ending.isCancel_iff {o : Ending} {s : JobState} (h : o.writes s = true) :
    o.isCancel = true ↔ s = .cancelled := by
  cases o with
  | ack result =>
    rw [show s = .completed from of_decide_eq_true h]
    exact ⟨fun h => (by cases h), fun h => (by cases h)⟩
  | nack jobErr =>
    have hs : s = .retryable ∨ s = .discarded := of_decide_eq_true h
    rcases hs with rfl | rfl <;> exact ⟨fun h => (by cases h), fun h => (by cases h)⟩
  | cancel => exact ⟨fun _ => of_decide_eq_true h, fun _ => rfl⟩

/-- **One end.** In every run in which no call makes its check while another
is between its check and its write, an active job ends once. -/
theorem active_job_ends_once [DecidableEq ι] {cfg : Config} {ρ : Rules} {id : String}
    {op : ι → Ending} {r : JobRecord} {tr : List (Event ι Call Answer)}
    {P P' : Pool ι World Call Answer (Except Error Unit)} (hρ : ρ.faults = false)
    (hjob : P.world.store.jobs.lookup id = some r) (hactive : r.state = .active)
    (hP : ∀ i, P.thread i = (op i).prog cfg id)
    (hr : Pool.Run ρ.env (ChecksApart id op) P tr P') : EndsOnce id op P.world tr P' := by
  have hconf : ∀ i, (closing id (op i)).Conforms (P.thread i) .start := fun i => by
    rw [hP i]
    exact closing_prog cfg (op i)
  have hstart : Stands op (fun _ => .start) r.state :=
    ⟨fun _ => hactive, fun _ _ h => (by cases h), fun _ _ h => (by cases h),
      fun _ _ _ _ h => (by cases h), fun _ _ h => (by cases h), fun _ h => (by cases h),
      fun _ _ h => (by cases h)⟩
  have h0 : Closed id op P.world [] P.world fun _ => .start :=
    ⟨⟨r, hjob, hstart⟩, fun _ h => (by cases h), fun _ _ _ h => (by cases h),
      fun _ h => (by rcases h with h | h <;> cases h), fun _ _ _ h => (by cases h),
      fun _ h => (by cases h), fun _ _ h => (by cases h), fun _ => .inl rfl, .inl rfl⟩
  obtain ⟨hI, hc⟩ := hr.invariant (m := fun i => closing id (op i)) (s := fun _ => .start)
    (Closed id op P.world) hconf h0 fun _ _ _ _ _ _ _ hI ha he hok => hI.next hρ ha he hok
  generalize Monitor.states (fun i => closing id (op i)) (fun _ => .start) tr = t at hI hc
  -- a call that has succeeded has written
  have hwrote : ∀ i, P'.Returned i (.ok ()) → ∃ a, t i = .wrote a := fun i hi => by
    have ha := Pool.accepted (hc i) hi
    cases hs : t i with
    | wrote a => exact ⟨a, rfl⟩
    | gone => exact absurd hs (hI.here i)
    | start | checked | refused =>
      rw [hs] at ha
      cases ha
  obtain ⟨y, hy, hst⟩ := hI.record
  refine ⟨fun i j hi hj hkind => ?_, fun i j hi hj hni hnj => ?_, fun queue => ?_, ?_⟩
  · obtain ⟨a, ha⟩ := hwrote i hi
    obtain ⟨b, hb⟩ := hwrote j hj
    refine hst.one i j a b ha hb ?_
    rw [← Ending.isCancel_iff (hst.kinds i a ha), ← Ending.isCancel_iff (hst.kinds j b hb), hkind]
  · obtain ⟨a, ha⟩ := hwrote i hi
    obtain ⟨b, hb⟩ := hwrote j hj
    have hnot : a.state ≠ .cancelled := fun h => by
      rw [(Ending.isCancel_iff (hst.kinds i a ha)).mpr h] at hni
      cases hni
    have hcancel := hst.cancelled j b hb ((Ending.isCancel_iff (hst.kinds j b hb)).mp hnj)
    refine ⟨?_, y, hy, hcancel⟩
    have hretry : a.state = .retryable := by
      rcases hst.ended i a ha hnot with hs | ⟨-, hs⟩
      · exact absurd (hs.symm.trans hcancel) hnot
      · exact hs
    rw [← hretry]
    exact hI.written i a ha
  · rcases hI.counter queue with h | ⟨-, h⟩ <;> omega
  · rcases hI.advance with h | ⟨-, h⟩
    · rw [h]
      exact Nat.zero_le _
    · exact le_of_eq h

/-! ## A retry that is cancelled -/

instance (id : String) (op : Bool → Ending) (tr : List (Event Bool Call Answer)) (i : Bool) :
    Decidable (CheckOpen id op tr i) :=
  decidable_of_iff
    ((∃ e ∈ tr, e.thread = i ∧ (foundState e).any (op i).accepts = true) ∧
      ∀ e ∈ tr, e.thread = i → e.call.writesJob ≠ some id)
    (by simp only [CheckOpen, Option.any_eq_true])

instance (id : String) (op : Bool → Ending) (tr : List (Event Bool Call Answer)) (w : World)
    (e : Event Bool Call Answer) : Decidable (ChecksApart id op tr w e) :=
  inferInstanceAs (Decidable (_ → _))

/-- An active job of no workflow that stores no handle. -/
def activeWorld : World :=
  { store := { jobs := AList.insert "j1" { id := "j1", state := .active, queue := "default" } ∅ } }

/-- A Nack and a Cancel. -/
def retryAndCancel (first : Bool) : Ending := if first then .nack none else .cancel

def retryAndCancelPool : Pool Bool World Call Answer (Except Error Unit) :=
  ⟨activeWorld, fun i => (retryAndCancel i).prog demo "j1"⟩

/-- The Nack puts the job off for a retry, and then the Cancel begins. -/
def retryThenCancel : List (Bool × Choice) :=
  [(true, .ok), (true, .tick 0), (true, .ok), (true, .ok), (true, .ok), (true, .ok),
    (false, .ok), (false, .tick 0), (false, .ok), (false, .ok), (false, .ok), (false, .ok)]

/-- The job ends cancelled, by one Nack and one Cancel. -/
theorem active_job_ends_once_cancelled : ∃ tr P', EndsOnce "j1" retryAndCancel activeWorld tr P' ∧
    ∀ i, P'.Returned i (.ok ()) := by
  have hrun : ∃ out, Pool.script (Rules.act {}) (ChecksApart "j1" retryAndCancel) []
      retryThenCancel retryAndCancelPool = some out ∧
      ∀ i, out.2.thread i = .pure (.ok ()) := ⟨_, rfl, fun i => by cases i <;> rfl⟩
  obtain ⟨⟨tr, P'⟩, hscript, hpure⟩ := hrun
  have hr : Pool.Run (Rules.env {}) (ChecksApart "j1" retryAndCancel) retryAndCancelPool tr P' :=
    Pool.script_run retryThenCancel .start hscript
  exact ⟨tr, P', @active_job_ends_once Bool _ demo {} "j1" retryAndCancel
    { id := "j1", state := .active, queue := "default" } tr retryAndCancelPool P' rfl rfl rfl
    (fun _ => rfl) hr, hpure⟩

/-- A Nack and a Cancel of one active job may both succeed. -/
theorem retry_and_cancel_succeed : ¬ ∀ (cfg : Config) (ρ : Rules) (id : String) (op : Bool → Ending)
    (r : JobRecord) (tr : List (Event Bool Call Answer))
    (P P' : Pool Bool World Call Answer (Except Error Unit)), ρ.faults = false →
    P.world.store.jobs.lookup id = some r → r.state = .active →
    (∀ i, P.thread i = (op i).prog cfg id) → Pool.Run ρ.env Pool.anyStep P tr P' →
    ∀ i j, P'.Returned i (.ok ()) → P'.Returned j (.ok ()) → i = j := by
  intro hall
  have hrun : ∃ out, Pool.script (Rules.act {}) Pool.anyStep [] retryThenCancel
      retryAndCancelPool = some out ∧ ∀ i, out.2.thread i = .pure (.ok ()) := ⟨_, rfl, fun i => by cases i <;> rfl⟩
  obtain ⟨⟨tr, P'⟩, hscript, hpure⟩ := hrun
  have heq := hall demo {} "j1" retryAndCancel { id := "j1", state := .active, queue := "default" }
    tr retryAndCancelPool P' rfl rfl rfl (fun _ => rfl) (Pool.script_run retryThenCancel .start hscript)
    true false (hpure true) (hpure false)
  cases heq

end OjsSqs
