import OjsSqs.Atomic.Steps
import OjsSqs.Racing.Orderly

/-! # A requeue next to fetches

One worker gives an active job back with a Nack, and any number of Fetch calls
of other workers run next to it. When the Nack writes the record before a
Fetch has activated the job, the job ends with its message visible, or in the
hands of the last Fetch that took it, and it never becomes available under a
worker that has it. -/
namespace OjsSqs
open Calls

variable {ι : Type}

/-- A Fetch of some worker. -/
structure FetchCall where
  fuel : Nat
  queues : List String
  count : Int
  workerID : String
  visibilityTimeoutMs : Int

/-- The Nack, and the Fetches next to it. -/
def requeuePool (cfg : Config) (id : String) (jobErr : Option JobError) (f : ι → FetchCall)
    (w : World) : Pool (Option ι) World Call Answer Handout where
  world := w
  thread
    | none => Sum.inl <$> nack cfg id jobErr true
    | some i => Sum.inr <$>
      fetch cfg (f i).fuel (f i).queues (f i).count (f i).workerID (f i).visibilityTimeoutMs

/-- The job and the state a call writes for it. -/
def Call.sets : Call → Option (String × JobState)
  | .dynamo (.updateJobItem id s _ _ _) => some (id, s)
  | _ => none

/-- The deliveries of a receive. -/
def deliveriesOf {κ : Type} : Event κ Call Answer → List Delivery
  | ⟨_, .sqs (.receiveMessage _ _ _), .ok ds⟩ => ds
  | _ => []

/-- A Fetch has written the job active. -/
def Activated (id : String) (tr : List (Event (Option ι) Call Answer)) : Prop :=
  ∃ e ∈ tr, e.call.sets = some (id, .active)

/-- The Fetch `i` has received the job's message with this handle. -/
def HandedTo (id : String) (tr : List (Event (Option ι) Call Answer)) (i : ι) (h : Receipt) :
    Prop :=
  ∃ e ∈ tr, e.thread = some i ∧ ∃ d ∈ deliveriesOf e, d.jobID = some id ∧ d.receiptHandle = h

/-- The Nack writes the record before a Fetch has activated the job, and the
job does not pass its `expires_at`. -/
structure HandsOver (cfg : Config) (id : String) (tr : List (Event (Option ι) Call Answer))
    (w : World) (e : Event (Option ι) Call Answer) : Prop where
  first : e.call.sets = some (id, .available) → ¬Activated id tr
  live : ∀ r, w.store.jobs.lookup id = some r → expired cfg w.clock (recordToJob r) = false

/-- An active job in the hands of a worker: its record stores the newest
handle of its one message. -/
structure InHand (cfg : Config) (id : String) (m : Message) (r : JobRecord) (w : World) : Prop where
  orderly : Orderly cfg w
  record : w.store.jobs.lookup id = some r
  active : r.state = .active
  message : w.sqs.messagesOf id = [m]
  handle : ∃ h, r.sqsReceiptHandle = some h ∧ m.receipt = some h
  about : About cfg r m

/-- In a run of atomic steps that has lost no message every active job is in
hand. -/
theorem Good.inHand {cfg : Config} {κ : Regime} {w : World} (hg : Good cfg κ [] w)
    (hκ : κ.lossless = true) {id : String} {r : JobRecord}
    (hr : w.store.jobs.lookup id = some r) (hs : r.state = .active) :
    ∃ m, InHand cfg id m r w := by
  have hf := hg.fits id r hr
  have hlen : (w.sqs.messagesOf id).length = 1 := by
    have hle := hf.messages.trans (maxMessages_le κ r.state)
    have hpos := List.length_pos_iff.mpr (hf.present hκ (.inr hs))
    omega
  obtain ⟨m, hm⟩ := List.length_eq_one_iff.mp hlen
  have hmem : m ∈ w.sqs.messagesOf id := hm ▸ List.mem_singleton_self m
  obtain ⟨h, hh, -, hall⟩ := hf.active hs
  have hrec : m.receipt = some h := (hall m hmem).resolve_right fun ⟨_, hd, _⟩ => by cases hd
  exact ⟨m, ⟨hg.sound.sqs, hg.sound.urls, fun i r hr => (hg.fits i r hr).id_eq⟩, hr, hs, hm,
    ⟨h, hh, hrec⟩, hf.about m hmem⟩

/-! ## What the calls keep -/

namespace Grip

/-- The Fetch will return the job. -/
def took : Grip → Bool
  | .free _ b | .holds _ b _ => b
  | .wrote _ _ => true
  | _ => false

/-- The Fetch has never received the job. -/
def clear : Grip → Bool
  | .free _ b => !b
  | .holds _ _ _ | .wrote _ _ => false
  | _ => true

/-- The clock as the Fetch has read it. -/
def now? : Grip → Option Time
  | .free t _ | .holds t _ _ | .wrote t _ => some t
  | _ => none

/-- The Nack has made the message visible. -/
def isShown : Grip → Bool
  | .shown | .put => true
  | _ => false

end Grip

section
variable {cfg : Config} {id : String} {m₀ : Message} {r₀ : JobRecord} {f : ι → FetchCall}
  {tr : List (Event (Option ι) Call Answer)} {w w' : World} {t t' : Option ι → Grip}

theorem Activated.append (h : Activated id tr) (e : Event (Option ι) Call Answer) :
    Activated id (tr ++ [e]) := by
  obtain ⟨e', he', hs⟩ := h
  exact ⟨e', List.mem_append_left _ he', hs⟩

theorem activated_append {e : Event (Option ι) Call Answer}
    (he : e.call.sets ≠ some (id, .active)) : Activated id (tr ++ [e]) ↔ Activated id tr := by
  refine ⟨fun ⟨e', he', hs⟩ => ?_, fun h => h.append e⟩
  rcases List.mem_append.mp he' with he' | he'
  · exact ⟨e', he', hs⟩
  · rw [List.mem_singleton.mp he'] at hs
    exact absurd hs he

theorem HandedTo.append {i : ι} {h : Receipt} (hh : HandedTo id tr i h)
    (e : Event (Option ι) Call Answer) : HandedTo id (tr ++ [e]) i h := by
  obtain ⟨e', he', hs⟩ := hh
  exact ⟨e', List.mem_append_left _ he', hs⟩

/-- Who owns the record: the last Fetch that has activated the job, or, when
there was none, the queue after the Nack and the first worker before it. -/
structure Owned (id : String) (r₀ : JobRecord) (f : ι → FetchCall)
    (tr : List (Event (Option ι) Call Answer)) (t : Option ι → Grip) (r : JobRecord) : Prop where
  taken : Activated id tr → r.state = .active ∧ ∃ i h, (t (some i)).took = true ∧
    r.workerID = (f i).workerID ∧ r.sqsReceiptHandle = some h ∧ HandedTo id tr i h
  waiting : ¬Activated id tr → t none = .put → r.state = .available ∧ r.sqsReceiptHandle = none
  before : ¬Activated id tr → t none ≠ .put →
    r.state = .active ∧ r.sqsReceiptHandle = r₀.sqsReceiptHandle

/-- The message, as long as no Fetch has received it. -/
structure Posted (id : String) (m₀ : Message) (w : World) (t : Option ι → Grip) (m : Message) :
    Prop where
  one : w.sqs.messagesOf id = [m]
  id_eq : m.id = m₀.id
  queueURL : m.queueURL = m₀.queueURL
  body : m.body = m₀.body
  receipt : (∀ i, (t (some i)).clear = true) → m.receipt = m₀.receipt
  visible : (∀ i, (t (some i)).clear = true) → (t none).isShown = true → m.visible = true

/-- What the Nack and the Fetches keep. -/
structure Shared (cfg : Config) (id : String) (m₀ : Message) (r₀ : JobRecord) (f : ι → FetchCall)
    (tr : List (Event (Option ι) Call Answer)) (w : World) (t : Option ι → Grip) : Prop where
  orderly : Orderly cfg w
  here : ∀ i, t i ≠ .gone
  granted : t none ≠ .refused
  record : ∃ r, w.store.jobs.lookup id = some r ∧ r.queue = r₀.queue ∧
    r.expiresAt = r₀.expiresAt ∧ Owned id r₀ f tr t r
  message : ∃ m, Posted id m₀ w t m
  read : ∀ r, t none = .read r → r.queue = r₀.queue ∧
    ((∀ i, (t (some i)).clear = true) → r.sqsReceiptHandle = r₀.sqsReceiptHandle)
  took : ∀ i, (t (some i)).took = true → Activated id tr
  holding : ∀ i now b d, t (some i) = .holds now b d →
    HandedTo id tr i d.receiptHandle ∧ d.body = m₀.body
  clock : ∀ i now, (t (some i)).now? = some now → now ≤ w.clock

/-- What a step of one call may do to the others' view. -/
structure Onward (t t' : Option ι → Grip) : Prop where
  clear : ∀ i, (t' (some i)).clear = true → (t (some i)).clear = true
  took : ∀ i, (t (some i)).took = true → (t' (some i)).took = true

theorem Onward.refl (t : Option ι → Grip) : Onward t t := ⟨fun _ h => h, fun _ h => h⟩

/-- Nobody has activated the job while no Fetch has received it. -/
theorem Owned.not_activated {r : JobRecord} (h : Owned id r₀ f tr t r)
    (hc : ∀ i, (t (some i)).clear = true) : ¬Activated id tr := by
  intro ha
  obtain ⟨-, i, -, ht, -⟩ := h.taken ha
  have hi := hc i
  cases hx : t (some i) with
  | free now b =>
    rw [hx] at hi ht
    rw [show b = true from ht] at hi
    cases hi
  | holds now b d =>
    rw [hx] at hi
    cases hi
  | wrote now d =>
    rw [hx] at hi
    cases hi
  | _ =>
    rw [hx] at ht
    cases ht

/-- A step that writes no record of the job. -/
theorem Owned.step {r : JobRecord} (h : Owned id r₀ f tr t r) (ho : Onward t t')
    (hput : t' none = .put ↔ t none = .put) {e : Event (Option ι) Call Answer}
    (he : e.call.sets ≠ some (id, .active)) : Owned id r₀ f (tr ++ [e]) t' r := by
  have hiff : Activated id (tr ++ [e]) ↔ Activated id tr := activated_append he
  refine ⟨fun ha => ?_, fun ha hp => h.waiting (fun h => ha (hiff.mpr h)) (hput.mp hp),
    fun ha hp => h.before (fun h => ha (hiff.mpr h)) fun h => hp (hput.mpr h)⟩
  obtain ⟨hs, i, h', ht, hw, hh, hd⟩ := h.taken (hiff.mp ha)
  exact ⟨hs, i, h', ho.took i ht, hw, hh, hd.append e⟩

/-- A step that leaves the message alone. -/
theorem Posted.step {m : Message} (h : Posted id m₀ w t m) (ho : Onward t t')
    (hmsg : w'.sqs.messagesOf id = w.sqs.messagesOf id)
    (hshown : (t' none).isShown = true → (t none).isShown = true) : Posted id m₀ w' t' m :=
  ⟨hmsg.trans h.one, h.id_eq, h.queueURL, h.body, fun hc => h.receipt fun i => ho.clear i (hc i),
    fun hc hs => h.visible (fun i => ho.clear i (hc i)) (hshown hs)⟩

section
variable [DecidableEq ι] {x : Grip} {c : Call} {a : Answer c}

theorem update_some {j : ι} (x : Grip) (i : ι) :
    Function.update t (some j) x (some i) = if i = j then x else t (some i) := by
  by_cases h : i = j
  · rw [h, Function.update_self, if_pos rfl]
  · rw [Function.update_of_ne (fun hs => h (Option.some.inj hs)), if_neg h]

theorem onward_update {j : ι} (hc : x.clear = true → (t (some j)).clear = true)
    (ht : (t (some j)).took = true → x.took = true) :
    Onward t (Function.update t (some j) x) := by
  refine ⟨fun i h => ?_, fun i h => ?_⟩ <;> rw [update_some] at *
  · split at h
    · subst ‹i = j›
      exact hc h
    · exact h
  · split
    · subst ‹i = j›
      exact ht h
    · exact h

/-- A step of the Fetch `j`. -/
theorem Shared.fetchMove (h : Shared cfg id m₀ r₀ f tr w t) {j : ι} (ho : Orderly cfg w')
    (hx : x ≠ .gone) (hon : Onward t (Function.update t (some j) x)) (hclock : w.clock ≤ w'.clock)
    (hrec : ∃ r, w'.store.jobs.lookup id = some r ∧ r.queue = r₀.queue ∧
      r.expiresAt = r₀.expiresAt ∧
      Owned id r₀ f (tr ++ [⟨some j, c, a⟩]) (Function.update t (some j) x) r)
    (hmsg : ∃ m, Posted id m₀ w' (Function.update t (some j) x) m)
    (htook : x.took = true → Activated id (tr ++ [⟨some j, c, a⟩]))
    (hhold : ∀ now b d, x = .holds now b d →
      HandedTo id (tr ++ [⟨some j, c, a⟩]) j d.receiptHandle ∧ d.body = m₀.body)
    (hnow : ∀ now, x.now? = some now → now ≤ w'.clock) :
    Shared cfg id m₀ r₀ f (tr ++ [⟨some j, c, a⟩]) w' (Function.update t (some j) x) := by
  have hnone : Function.update t (some j) x none = t none :=
    Function.update_of_ne (fun h => by cases h) ..
  refine ⟨ho, fun i => ?_, ?_, hrec, hmsg, fun r hr => ?_, fun i hi => ?_, fun i now b d hi => ?_,
    fun i now hi => ?_⟩
  · cases i with
    | none => rw [hnone]; exact h.here none
    | some i =>
      rw [update_some]
      split
      · exact hx
      · exact h.here _
  · rw [hnone]
    exact h.granted
  · rw [hnone] at hr
    obtain ⟨hq, hh⟩ := h.read r hr
    exact ⟨hq, fun hc => hh fun i => hon.clear i (hc i)⟩
  · rw [update_some] at hi
    split at hi
    · exact htook hi
    · exact (h.took i hi).append _
  · rw [update_some] at hi
    split at hi
    · subst ‹i = j›
      exact hhold now b d hi
    · obtain ⟨hd, hb⟩ := h.holding i now b d hi
      exact ⟨hd.append _, hb⟩
  · rw [update_some] at hi
    split at hi
    · exact hnow now hi
    · exact (h.clock i now hi).trans hclock

/-- A step of the Nack. -/
theorem Shared.nackMove (h : Shared cfg id m₀ r₀ f tr w t) (ho : Orderly cfg w')
    (hx : x ≠ .gone) (hgrant : x ≠ .refused) (hclock : w.clock ≤ w'.clock)
    (hrec : ∃ r, w'.store.jobs.lookup id = some r ∧ r.queue = r₀.queue ∧
      r.expiresAt = r₀.expiresAt ∧
      Owned id r₀ f (tr ++ [⟨none, c, a⟩]) (Function.update t none x) r)
    (hmsg : ∃ m, Posted id m₀ w' (Function.update t none x) m)
    (hread : ∀ r, x = .read r → r.queue = r₀.queue ∧
      ((∀ i, (t (some i)).clear = true) → r.sqsReceiptHandle = r₀.sqsReceiptHandle)) :
    Shared cfg id m₀ r₀ f (tr ++ [⟨none, c, a⟩]) w' (Function.update t none x) := by
  have hsome : ∀ i, Function.update t none x (some i) = t (some i) := fun i =>
    Function.update_of_ne (fun h => by cases h) ..
  refine ⟨ho, fun i => ?_, ?_, hrec, hmsg, fun r hr => ?_, fun i hi => ?_, fun i now b d hi => ?_,
    fun i now hi => ?_⟩
  · cases i with
    | none => rw [Function.update_self]; exact hx
    | some i => rw [hsome]; exact h.here _
  · rw [Function.update_self]
    exact hgrant
  · rw [Function.update_self] at hr
    obtain ⟨hq, hh⟩ := hread r hr
    exact ⟨hq, fun hc => hh fun i => hsome i ▸ hc i⟩
  · rw [hsome] at hi
    exact (h.took i hi).append _
  · rw [hsome] at hi
    obtain ⟨hd, hb⟩ := h.holding i now b d hi
    exact ⟨hd.append _, hb⟩
  · rw [hsome] at hi
    exact (h.clock i now hi).trans hclock

theorem onward_none (x : Grip) : Onward t (Function.update t none x) := by
  have hsome : ∀ i, Function.update t none x (some i) = t (some i) := fun i =>
    Function.update_of_ne (fun h => by cases h) ..
  exact ⟨fun i h => hsome i ▸ h, fun i h => (hsome i).symm ▸ h⟩

/-! ## Steps that leave the job alone -/

theorem Call.passes_sets {message : MessageId} (hc : c.passes cfg id message) (s : JobState) :
    c.sets ≠ some (id, s) := by
  cases c with
  | dynamo d =>
    cases d with
    | updateJobItem i st us sk pk => exact fun h => hc (Prod.mk.inj (Option.some.inj h)).1
    | _ => exact fun h => by cases h
  | _ => exact fun h => by cases h

theorem Shared.stayFetch (h : Shared cfg id m₀ r₀ f tr w t) {j : ι} (hp : Passed cfg id w w')
    (hclock : w.clock ≤ w'.clock) (hs : c.sets ≠ some (id, .active)) (hx : x ≠ .gone)
    (hclear : x.clear = true → (t (some j)).clear = true) (htook : x.took = (t (some j)).took)
    (hhold : ∀ now b d, x = .holds now b d → t (some j) = .holds now b d)
    (hnow : ∀ now, x.now? = some now → now ≤ w'.clock) :
    Shared cfg id m₀ r₀ f (tr ++ [⟨some j, c, a⟩]) w' (Function.update t (some j) x) := by
  obtain ⟨r, hr, hq, hexp, hown⟩ := h.record
  obtain ⟨m, hm⟩ := h.message
  have hon : Onward t (Function.update t (some j) x) := onward_update hclear fun h => htook ▸ h
  have hnone : Function.update t (some j) x none = t none :=
    Function.update_of_ne (fun h => by cases h) ..
  refine h.fetchMove hp.orderly hx hon hclock
    ⟨r, hp.job.trans hr, hq, hexp, hown.step hon (by rw [hnone]) hs⟩
    ⟨m, hm.step hon hp.messages fun hsh => hnone ▸ hsh⟩
    (fun ht => (h.took j (htook ▸ ht)).append _) (fun now b d hd => ?_) hnow
  obtain ⟨hh, hb⟩ := h.holding j now b d (hhold now b d hd)
  exact ⟨hh.append _, hb⟩

theorem Shared.stayNack (h : Shared cfg id m₀ r₀ f tr w t) (hp : Passed cfg id w w')
    (hclock : w.clock ≤ w'.clock) (hs : c.sets ≠ some (id, .active)) (hx : x ≠ .gone)
    (hgrant : x ≠ .refused) (hput : x = .put ↔ t none = .put)
    (hshown : x.isShown = true → (t none).isShown = true)
    (hread : ∀ r, x = .read r → r.queue = r₀.queue ∧
      ((∀ i, (t (some i)).clear = true) → r.sqsReceiptHandle = r₀.sqsReceiptHandle)) :
    Shared cfg id m₀ r₀ f (tr ++ [⟨none, c, a⟩]) w' (Function.update t none x) := by
  obtain ⟨r, hr, hq, hexp, hown⟩ := h.record
  obtain ⟨m, hm⟩ := h.message
  have hself : Function.update t none x none = x := Function.update_self ..
  exact h.nackMove hp.orderly hx hgrant hclock
    ⟨r, hp.job.trans hr, hq, hexp, hown.step (onward_none x) (by rw [hself]; exact hput) hs⟩
    ⟨m, hm.step (onward_none x) hp.messages fun hsh => hshown (hself ▸ hsh)⟩ hread

variable {ρ : Rules} (hρ : ρ.faults = false)
include hρ

omit [DecidableEq ι] in
theorem Shared.passed (h : Shared cfg id m₀ r₀ f tr w t) (hc : c.passes cfg id m₀.id)
    (he : ρ.env c w a w') : Passed cfg id w w' ∧ c.plausible cfg id a = true := by
  obtain ⟨r, hr, -⟩ := h.record
  obtain ⟨m, hm⟩ := h.message
  refine h.orderly.passes hρ (by rw [hr]; rfl) (fun m' hm' => ?_) hc he
  rw [hm.one, List.mem_singleton] at hm'
  rw [hm', hm.id_eq]

theorem Shared.passFetch (h : Shared cfg id m₀ r₀ f tr w t) {j : ι}
    (hc : c.passes cfg id m₀.id) (he : ρ.env c w a w') :
    Shared cfg id m₀ r₀ f (tr ++ [⟨some j, c, a⟩]) w'
      (Function.update t (some j) (Grip.after cfg id (t (some j)) c a)) := by
  obtain ⟨hp, hplaus⟩ := h.passed hρ hc he
  rw [Grip.after, if_pos hplaus]
  exact h.stayFetch hp (Rules.env_clock he) (Call.passes_sets hc _) (h.here _) (fun h => h)
    rfl (fun _ _ _ h => h) fun now hn => (h.clock j now hn).trans (Rules.env_clock he)

theorem Shared.passNack (h : Shared cfg id m₀ r₀ f tr w t) (hc : c.passes cfg id m₀.id)
    (he : ρ.env c w a w') : Shared cfg id m₀ r₀ f (tr ++ [⟨none, c, a⟩]) w'
      (Function.update t none (Grip.after cfg id (t none) c a)) := by
  obtain ⟨hp, hplaus⟩ := h.passed hρ hc he
  rw [Grip.after, if_pos hplaus]
  exact h.stayNack hp (Rules.env_clock he) (Call.passes_sets hc _) (h.here _) h.granted Iff.rfl
    (fun h => h) h.read

/-! ## The steps of a Fetch -/

omit hρ in
theorem Rules.env_now {now : Time} (he : ρ.env (.proc .now) w now w') : w' = w.setClock now :=
  wp_timeNow (Q := fun now w' => w' = w.setClock now) (fun _ _ => rfl) now w' he

omit hρ in
theorem Orderly.setClock (h : Orderly cfg w) (now : Time) : Passed cfg id w (w.setClock now) :=
  ⟨⟨h.sqs, h.urls, h.ids⟩, rfl, rfl⟩

omit hρ in
theorem Shared.begin (h : Shared cfg id m₀ r₀ f tr w t) {j : ι} (hj : t (some j) = .start)
    {now : Time} (he : ρ.env (.proc .now) w now w') :
    Shared cfg id m₀ r₀ f (tr ++ [⟨some j, .proc .now, now⟩]) w'
      (Function.update t (some j) (.free now false)) := by
  obtain rfl := Rules.env_now he
  refine h.stayFetch (h.orderly.setClock now) (Rules.env_clock he) (fun h => by cases h)
    (fun h => by cases h) (fun _ => by rw [hj]; rfl) (by rw [hj]; rfl) (fun _ _ _ h => by cases h)
    fun t ht => ?_
  cases ht
  exact le_refl _

/-- A receive. -/
theorem Shared.receive (h : Shared cfg id m₀ r₀ f tr w t) (hfull : ρ.redrive = false) {j : ι}
    {now : Time} {b : Bool} (hj : t (some j) = .free now b) {url : String} {max : Nat} {vis : Int}
    {a : Except AwsError (List Delivery)}
    (he : ρ.env (.sqs (.receiveMessage url max vis)) w a w') :
    Shared cfg id m₀ r₀ f (tr ++ [⟨some j, .sqs (.receiveMessage url max vis), a⟩]) w'
      (Function.update t (some j) ((taking cfg id m₀.id (f j).workerID).next (.free now b)
        (.sqs (.receiveMessage url max vis)) a)) := by
  obtain ⟨r, hr, hq, hexp, hown⟩ := h.record
  obtain ⟨m, hm⟩ := h.message
  obtain ⟨ds, m', rfl, ho, hstore, hclock, hone, hid, hurl, hbody, hget⟩ :=
    h.orderly.receive hρ hfull hm.one he now b
  have hnone : ∀ x, Function.update t (some j) x none = t none := fun x =>
    Function.update_of_ne (fun h => by cases h) ..
  have hset : (Call.sqs (.receiveMessage url max vis)).sets ≠ some (id, .active) :=
    fun h => by cases h
  have hnow : now ≤ w'.clock := (h.clock j now (by rw [hj]; rfl)).trans hclock.ge
  show Shared cfg id m₀ r₀ f _ w' (Function.update t (some j)
    (Grip.received id m₀.id now b max ds))
  rw [hm.id_eq] at hget
  rcases hget with ⟨hfree, rfl⟩ | ⟨d, hd, hholds, hdj, hdb⟩
  · rw [hfree, ← hj]
    refine h.stayFetch ⟨ho, by rw [hstore], hone.trans hm.one.symm⟩ hclock.ge hset (h.here _)
      (fun h => h) rfl (fun _ _ _ h => h) fun t ht => ?_
    rw [hj] at ht
    cases ht
    exact hnow
  · rw [hholds]
    have hon : Onward t (Function.update t (some j) (.holds now b d)) :=
      onward_update (fun h => by cases h) fun ht => by rw [hj] at ht; exact ht
    refine h.fetchMove ho (fun h => by cases h) hon hclock.ge
      ⟨r, by rw [hstore]; exact hr, hq, hexp, hown.step hon (by rw [hnone]) hset⟩
      ⟨m', hone, hid.trans hm.id_eq, hurl.trans hm.queueURL, hbody.trans hm.body,
        fun hc => ?_, fun hc => ?_⟩
      (fun ht => (h.took j (by rw [hj]; exact ht)).append _) (fun now' b' d' hx => ?_) fun t ht => ?_
    · have hj' := hc j
      rw [update_some, if_pos rfl] at hj'
      cases hj'
    · have hj' := hc j
      rw [update_some, if_pos rfl] at hj'
      cases hj'
    · cases hx
      exact ⟨⟨_, List.mem_append_right _ (List.mem_singleton_self _), rfl, d, hd, hdj, rfl⟩,
        hdb.trans hm.body⟩
    · cases ht
      exact hnow

/-- The Fetch writes the job active. -/
theorem Shared.activate (h : Shared cfg id m₀ r₀ f tr w t) {j : ι} {now : Time} {b : Bool}
    {d : Delivery} (hj : t (some j) = .holds now b d) {sk pk : String} {a : Except AwsError Unit}
    (he : ρ.env (.dynamo (.updateJobItem id .active
      (activeUpdates cfg now (f j).workerID d) sk pk)) w a w') :
    Shared cfg id m₀ r₀ f (tr ++ [⟨some j, .dynamo (.updateJobItem id .active
      (activeUpdates cfg now (f j).workerID d) sk pk), a⟩]) w'
      (Function.update t (some j) ((taking cfg id m₀.id (f j).workerID).next (.holds now b d)
        (.dynamo (.updateJobItem id .active (activeUpdates cfg now (f j).workerID d) sk pk)) a)) := by
  obtain ⟨r, hr, hq, hexp, hown⟩ := h.record
  obtain ⟨m, hm⟩ := h.message
  obtain ⟨rfl, rfl⟩ := Rules.env_updateJobItem hρ hr he
  rw [show (taking cfg id m₀.id (f j).workerID).next (.holds now b d) (.dynamo (.updateJobItem id
    .active (activeUpdates cfg now (f j).workerID d) sk pk)) (.ok ()) = .wrote now d from if_pos rfl]
  obtain ⟨hd, -⟩ := h.holding j now b d hj
  have hon : Onward t (Function.update t (some j) (.wrote now d)) :=
    onward_update (fun h => by cases h) fun _ => rfl
  have hact : Activated id (tr ++ [⟨some j, .dynamo (.updateJobItem id .active
      (activeUpdates cfg now (f j).workerID d) sk pk), .ok ()⟩]) :=
    ⟨_, List.mem_append_right _ (List.mem_singleton_self _), rfl⟩
  refine h.fetchMove (h.orderly.update hr _ _ _ _) (fun h => by cases h) hon (le_refl _)
    ⟨_, World.setJob_lookup id _, by rw [JobRecord.update_queue, hq],
      by rw [JobRecord.update_expiresAt, hexp], fun _ => ⟨rfl, j, d.receiptHandle, ?_, rfl, rfl,
        hd.append _⟩, fun hn => absurd hact hn, fun hn => absurd hact hn⟩
    ⟨m, hm.step hon rfl fun hsh => ?_⟩ (fun _ => hact) (fun _ _ _ h => by cases h) fun t ht => ?_
  · rw [update_some, if_pos rfl]
    rfl
  · rwa [Function.update_of_ne (fun h => by cases h)] at hsh
  · cases ht
    exact h.clock j now (by rw [hj]; rfl)

/-- The Fetch has read the record back. -/
theorem Shared.readBack (h : Shared cfg id m₀ r₀ f tr w t) {j : ι} {now : Time} {d : Delivery}
    (hj : t (some j) = .wrote now d) {a : Except AwsError (Option JobRecord)}
    (he : ρ.env (.dynamo (.getJobItem id)) w a w') :
    Shared cfg id m₀ r₀ f (tr ++ [⟨some j, .dynamo (.getJobItem id), a⟩]) w'
      (Function.update t (some j)
        (Grip.after cfg id (.free now true) (.dynamo (.getJobItem id)) a)) := by
  obtain ⟨hp, hplaus⟩ := h.passed (c := .dynamo (.getJobItem id)) hρ trivial he
  rw [Grip.after, if_pos hplaus]
  refine h.stayFetch hp (Rules.env_clock he) (fun h => by cases h) (fun h => by cases h)
    (fun h => by cases h) (by rw [hj]; rfl) (fun _ _ _ h => by cases h) fun t ht => ?_
  cases ht
  exact (h.clock j now (by rw [hj]; rfl)).trans (Rules.env_clock he)

end

/-- Later than an instant at which the job was expired, it still is. -/
theorem expired_mono {job job' : Job} {now now' : Time} (hle : now ≤ now')
    (hexp : job'.expiresAt = job.expiresAt) (h : expired cfg now job = true) :
    expired cfg now' job' = true := by
  rw [expired, hexp]
  rw [expired] at h
  split at h
  · cases h
  · rw [if_neg ‹_›]
    split at h
    · exact decide_eq_true (lt_of_lt_of_le (of_decide_eq_true h) hle)
    · cases h

/-! ## The steps of the Nack -/

section
variable [DecidableEq ι] {ρ : Rules} (hρ : ρ.faults = false) {h₀ : Receipt}
include hρ

/-- The check finds the job active. -/
theorem Shared.check (h : Shared cfg id m₀ r₀ f tr w t) (hn : t none = .asks)
    (hh₀ : r₀.sqsReceiptHandle = some h₀) {a : Except AwsError (Option JobRecord)}
    (he : ρ.env (.dynamo (.getJobItem id)) w a w') :
    Shared cfg id m₀ r₀ f (tr ++ [⟨none, .dynamo (.getJobItem id), a⟩]) w'
      (Function.update t none
        ((requeueing cfg id m₀.id).next .asks (.dynamo (.getJobItem id)) a)) := by
  obtain ⟨r, hr, hq, hexp, hown⟩ := h.record
  obtain ⟨rfl, rfl⟩ := Rules.env_run hρ rfl he
  have hput : t none ≠ .put := by
    rw [hn]
    exact fun h => by cases h
  have hheld : r.state = .active ∧ r.sqsReceiptHandle.isSome := by
    by_cases ha : Activated id tr
    · obtain ⟨hs, -, h', -, -, hh, -⟩ := hown.taken ha
      exact ⟨hs, by rw [hh]; rfl⟩
    · obtain ⟨hs, hh⟩ := hown.before ha hput
      exact ⟨hs, by rw [hh, hh₀]; rfl⟩
  simp only [Store.run, hr]
  rw [show (requeueing cfg id m₀.id).next .asks (.dynamo (.getJobItem id)) (.ok (some r)) =
    .read r from (if_pos hheld.1).trans (if_pos hheld.2)]
  refine h.stayNack (h.orderly.passed_refl) (le_refl _) (fun h => by cases h) (fun h => by cases h)
    (fun h => by cases h) ⟨fun h => (by cases h), fun h => absurd h hput⟩ (fun h => by cases h)
    fun r' hr' => ?_
  cases hr'
  exact ⟨hq, fun hc => (hown.before (hown.not_activated hc) hput).2⟩

/-- The message becomes visible, unless a Fetch has received it. -/
theorem Shared.show (h : Shared cfg id m₀ r₀ f tr w t) {r : JobRecord} (hn : t none = .read r)
    (hh₀ : r₀.sqsReceiptHandle = some h₀) (hm₀ : m₀.receipt = some h₀)
    (hq₀ : m₀.queueURL = sqsQueueName cfg r₀.queue) {hd : Receipt}
    (hh : r.sqsReceiptHandle = some hd) {a : Except AwsError Unit}
    (he : ρ.env (.sqs (.changeMessageVisibility (sqsQueueName cfg r.queue) hd 0)) w a w') :
    Shared cfg id m₀ r₀ f (tr ++
        [⟨none, .sqs (.changeMessageVisibility (sqsQueueName cfg r.queue) hd 0), a⟩]) w'
      (Function.update t none ((requeueing cfg id m₀.id).next (.read r)
        (.sqs (.changeMessageVisibility (sqsQueueName cfg r.queue) hd 0)) a)) := by
  obtain ⟨r', hr', hq, hexp, hown⟩ := h.record
  obtain ⟨m, hm⟩ := h.message
  obtain ⟨hqr, hread⟩ := h.read r hn
  obtain ⟨rfl, rfl⟩ := Rules.env_sqsRun hρ rfl he
  have hsome : ∀ i, Function.update t none Grip.shown (some i) = t (some i) := fun i =>
    Function.update_of_ne (fun h => by cases h) ..
  have hput : t none ≠ .put := by
    rw [hn]
    exact fun h => by cases h
  show Shared cfg id m₀ r₀ f _ _ (Function.update t none Grip.shown)
  simp only [SqsCall.run, SqsState.changeVisibility_eq]
  have hsame := SqsState.same_showMessage (sqsQueueName cfg r.queue) hd 0
  refine h.nackMove (h.orderly.setSqs (h.orderly.sqs.map hsame)) (fun h => by cases h)
    (fun h => by cases h) (le_refl _)
    ⟨r', hr', hq, hexp, hown.step (onward_none _) ?_ fun h => by cases h⟩
    ⟨SqsState.showMessage (sqsQueueName cfg r.queue) hd 0 m, ?_, (hsame m).id.trans hm.id_eq,
      (hsame m).queueURL.trans hm.queueURL, (hsame m).body.trans hm.body, fun hc => ?_,
      fun hc _ => ?_⟩ fun _ h => by cases h
  · rw [Function.update_self]
    exact ⟨fun h => (by cases h), fun h => absurd h hput⟩
  · rw [World.setSqs, SqsState.messagesOf_map hsame, hm.one, List.map_singleton]
  · rw [← hm.receipt fun i => hsome i ▸ hc i, SqsState.showMessage]
    split <;> rfl
  · have hc : ∀ i, (t (some i)).clear = true := fun i => hsome i ▸ hc i
    have hmatch : m.queueURL = sqsQueueName cfg r.queue ∧ m.receipt = some hd := by
      refine ⟨by rw [hm.queueURL, hq₀, hqr], ?_⟩
      rw [hm.receipt hc, hm₀, ← hh₀, ← hread hc, hh]
    rw [SqsState.showMessage, if_pos hmatch]
    rfl

/-- The Nack writes the record. -/
theorem Shared.putBack (h : Shared cfg id m₀ r₀ f tr w t) (hn : t none = .shown)
    {enqueuedAt sk pk : String} {a : Except AwsError Unit} (hfirst : ¬Activated id tr)
    (he : ρ.env (.dynamo (.updateJobItem id .available (requeueUpdates enqueuedAt) sk pk)) w a w') :
    Shared cfg id m₀ r₀ f (tr ++
        [⟨none, .dynamo (.updateJobItem id .available (requeueUpdates enqueuedAt) sk pk), a⟩]) w'
      (Function.update t none ((requeueing cfg id m₀.id).next .shown
        (.dynamo (.updateJobItem id .available (requeueUpdates enqueuedAt) sk pk)) a)) := by
  obtain ⟨r, hr, hq, hexp, hown⟩ := h.record
  obtain ⟨m, hm⟩ := h.message
  obtain ⟨rfl, rfl⟩ := Rules.env_updateJobItem hρ hr he
  rw [show (requeueing cfg id m₀.id).next .shown (.dynamo (.updateJobItem id .available
    (requeueUpdates enqueuedAt) sk pk)) (.ok ()) = .put from if_pos rfl]
  have hset : (Call.dynamo (.updateJobItem id .available (requeueUpdates enqueuedAt) sk pk)).sets ≠
      some (id, .active) := fun h => by cases h
  have hself : Function.update t none Grip.put none = .put := Function.update_self ..
  refine h.nackMove (h.orderly.update hr _ _ _ _) (fun h => by cases h) (fun h => by cases h)
    (le_refl _) ⟨_, World.setJob_lookup id _, by rw [JobRecord.update_queue, hq],
      by rw [JobRecord.update_expiresAt, hexp],
      fun ha => absurd ((activated_append hset).mp ha) hfirst, fun _ _ => ⟨rfl, rfl⟩,
      fun _ hp => absurd hself hp⟩
    ⟨m, hm.step (onward_none _) rfl fun _ => by rw [hn]; rfl⟩ fun _ h => by cases h

end

/-! ## Every step -/

section
variable [DecidableEq ι] {ρ : Rules} {c : Call} {a : Answer c} {h₀ : Receipt}

/-- The monitor of each call. -/
def handling (cfg : Config) (id : String) (message : MessageId) (f : ι → FetchCall) :
    Option ι → Monitor Grip Call Answer Handout
  | none => requeueing cfg id message
  | some i => taking cfg id message (f i).workerID

theorem Shared.nextFetch (h : Shared cfg id m₀ r₀ f tr w t) (hρ : ρ.faults = false)
    (hfull : ρ.redrive = false) (hb : ∃ b, m₀.body = some b ∧ b.expiresAt = r₀.expiresAt) {j : ι}
    (hc : (taking cfg id m₀.id (f j).workerID).allow (t (some j)) c) (he : ρ.env c w a w')
    (hok : HandsOver cfg id tr w ⟨some j, c, a⟩) :
    Shared cfg id m₀ r₀ f (tr ++ [⟨some j, c, a⟩]) w' (Function.update t (some j)
      ((taking cfg id m₀.id (f j).workerID).next (t (some j)) c a)) := by
  cases hj : t (some j) with
  | start =>
    rw [hj] at hc
    obtain rfl := hc
    exact h.begin hj he
  | free now b =>
    rw [hj] at hc
    rcases hc with hc | ⟨url, max, vis, rfl⟩
    · rw [((lets_free now b).passes c hc).2, ← hj]
      exact h.passFetch hρ hc he
    · exact h.receive hρ hfull hj he
  | holds now b d =>
    rw [hj] at hc
    rcases hc with hc | ⟨sk, pk, rfl⟩ | ⟨b', us, sk, pk, hd, hexp, rfl⟩
    · rw [((lets_holds now b d).passes c hc).2, ← hj]
      exact h.passFetch hρ hc he
    · exact h.activate hρ hj he
    · -- the delivery's job has not expired
      obtain ⟨r, hr, -, hre, -⟩ := h.record
      obtain ⟨b₀, hb₀, hbe⟩ := hb
      rw [(h.holding j now b d hj).2, hb₀] at hd
      cases hd
      have hlate : expired cfg w.clock (recordToJob r) = true :=
        expired_mono (h.clock j now (by rw [hj]; rfl)) (hre.trans hbe.symm) hexp
      rw [hok.live r hr] at hlate
      cases hlate
  | wrote now d =>
    rw [hj] at hc
    obtain rfl := hc
    exact h.readBack hρ hj he
  | gone => exact absurd hj (h.here _)
  | _ =>
    rw [hj] at hc
    exact hc.elim

theorem Shared.nextNack (h : Shared cfg id m₀ r₀ f tr w t) (hρ : ρ.faults = false)
    (hh₀ : r₀.sqsReceiptHandle = some h₀) (hm₀ : m₀.receipt = some h₀)
    (hq₀ : m₀.queueURL = sqsQueueName cfg r₀.queue)
    (hc : (requeueing cfg id m₀.id).allow (t none) c) (he : ρ.env c w a w')
    (hok : HandsOver cfg id tr w ⟨none, c, a⟩) :
    Shared cfg id m₀ r₀ f (tr ++ [⟨none, c, a⟩]) w' (Function.update t none
      ((requeueing cfg id m₀.id).next (t none) c a)) := by
  cases hn : t none with
  | asks =>
    rw [hn] at hc
    obtain rfl := hc
    exact h.check hρ hn hh₀ he
  | read r =>
    rw [hn] at hc
    rcases hc with hc | rfl | ⟨hd, hh, rfl⟩
    · rw [((lets_read r).passes c hc).2, ← hn]
      exact h.passNack hρ hc he
    · have hw := Rules.env_now he
      subst hw
      rw [show (requeueing cfg id m₀.id).next (.read r) (.proc .now) a = t none from hn.symm]
      exact h.stayNack (h.orderly.setClock a) (Rules.env_clock he) (fun h => by cases h)
        (h.here _) h.granted Iff.rfl (fun h => h) h.read
    · exact h.show hρ hn hh₀ hm₀ hq₀ hh he
  | shown =>
    rw [hn] at hc
    rcases hc with hc | ⟨enqueuedAt, sk, pk, rfl⟩
    · rw [(lets_shown.passes c hc).2, ← hn]
      exact h.passNack hρ hc he
    · exact h.putBack hρ hn (hok.first rfl) he
  | put =>
    rw [hn] at hc
    obtain rfl := hc
    rw [show (requeueing cfg id m₀.id).next .put (.dynamo (.getJobItem id)) a =
      Grip.after cfg id (t none) (.dynamo (.getJobItem id)) a by rw [hn]; rfl]
    exact h.passNack (c := .dynamo (.getJobItem id)) hρ trivial he
  | gone => exact absurd hn (h.here _)
  | _ =>
    rw [hn] at hc
    exact hc.elim

end

end

/-! ## The job changes hands -/

/-- The Fetch `i` has returned the job. -/
def ReturnedJob (id : String) (P : Pool (Option ι) World Call Answer Handout) (i : ι) : Prop :=
  ∃ jobs, P.Returned (some i) (.inr (some jobs)) ∧ ∃ job ∈ jobs, job.id = id

/-- The job is available with its message visible and no stored handle, or
active in the hands of a Fetch that returned it. -/
def Settled (id : String) (f : ι → FetchCall) (tr : List (Event (Option ι) Call Answer))
    (P : Pool (Option ι) World Call Answer Handout) (r : JobRecord) : Prop :=
  r.state = .available ∧ r.sqsReceiptHandle = none ∧
      (∃ m ∈ P.world.sqs.messagesOf id, m.visible = true) ∨
    r.state = .active ∧ ∃ i h, ReturnedJob id P i ∧ r.workerID = (f i).workerID ∧
      r.sqsReceiptHandle = some h ∧ HandedTo id tr i h

/-- What a requeue next to fetches promises. -/
structure ChangesHands (id : String) (f : ι → FetchCall)
    (tr : List (Event (Option ι) Call Answer)) (P : Pool (Option ι) World Call Answer Handout) :
    Prop where
  running : ∀ i, ReturnedJob id P i → ∀ r, P.world.store.jobs.lookup id = some r →
    ¬(r.state = .available ∧ r.sqsReceiptHandle = none)
  settled : (∃ a, P.Returned none (.inl a)) →
    (∀ i, ∃ jobs, P.Returned (some i) (.inr (some jobs))) →
    ∃ r, P.world.store.jobs.lookup id = some r ∧ Settled id f tr P r

/-- **A requeue hands the job over.** -/
theorem requeue_hands_over [DecidableEq ι] {cfg : Config} {ρ : Rules} {id : String} {m : Message}
    {r : JobRecord} {w : World} {jobErr : Option JobError} {f : ι → FetchCall}
    {tr : List (Event (Option ι) Call Answer)} {P : Pool (Option ι) World Call Answer Handout}
    (hρ : ρ.faults = false) (hfull : ρ.redrive = false) (h : InHand cfg id m r w)
    (hr : Pool.Run ρ.env (HandsOver cfg id) (requeuePool cfg id jobErr f w) tr P) :
    ChangesHands id f tr P := by
  obtain ⟨h₀, hh₀, hm₀⟩ := h.handle
  let s : Option ι → Grip := fun i => i.elim .asks fun _ => .start
  have hconf : ∀ i, (handling cfg id m.id f i).Conforms
      ((requeuePool cfg id jobErr f w).thread i) (s i) := fun i => by
    cases i with
    | none => exact requeueing_nack cfg jobErr
    | some i => exact taking_fetch cfg _ _ _ _
  have hnone : ¬Activated id ([] : List (Event (Option ι) Call Answer)) :=
    fun ⟨_, he, _⟩ => by cases he
  have h0 : Shared cfg id m r f [] w s :=
    ⟨h.orderly, fun i hi => (by cases i <;> cases hi), fun h => (by cases h),
      ⟨r, h.record, rfl, rfl, fun ha => absurd ha hnone, fun _ hp => (by cases hp),
        fun _ _ => ⟨h.active, rfl⟩⟩,
      ⟨m, h.message, rfl, rfl, rfl, fun _ => rfl, fun _ hs => (by cases hs)⟩,
      fun _ hs => (by cases hs), fun _ ht => (by cases ht), fun _ _ _ _ hs => (by cases hs),
      fun _ _ hs => (by cases hs)⟩
  obtain ⟨hI, hc⟩ := hr.invariant (m := handling cfg id m.id f) (s := s)
    (fun tr w t => Shared cfg id m r f tr w t) hconf h0
    fun tr w t i c a w' hI ha he hok => by
      cases i with
      | none => exact hI.nextNack hρ hh₀ hm₀ h.about.queueURL ha he hok
      | some j => exact hI.nextFetch hρ hfull h.about.body ha he hok
  generalize Monitor.states (handling cfg id m.id f) s tr = t at hI hc
  obtain ⟨r', hr', -, -, hown⟩ := hI.record
  -- what a Fetch that has returned says of its monitor
  have hfetch : ∀ i jobs, P.Returned (some i) (.inr (some jobs)) →
      ∃ now b, t (some i) = .free now b ∧ (b = true ↔ ∃ job ∈ jobs, job.id = id) := by
    intro i jobs hret
    have hacc := Pool.accepted (hc (some i)) hret
    cases hx : t (some i) with
    | free now b =>
      rw [hx] at hacc
      exact ⟨now, b, rfl, hacc jobs rfl⟩
    | gone => exact absurd hx (hI.here _)
    | _ =>
      rw [hx] at hacc
      exact hacc.elim
  refine ⟨fun i ⟨jobs, hret, hjob⟩ r'' hr'' => ?_, fun ⟨a, hnack⟩ hall => ⟨r', hr', ?_⟩⟩
  · obtain ⟨now, b, hi, hb⟩ := hfetch i jobs hret
    have hact := hI.took i (by rw [hi]; exact hb.mpr hjob)
    rw [hr', Option.some.injEq] at hr''
    rw [← hr'', (hown.taken hact).1]
    exact fun h => by cases h.1
  · have hput : t none = .put := by
      have hacc := Pool.accepted (hc none) hnack
      cases hx : t none with
      | put => rfl
      | refused => exact absurd hx hI.granted
      | gone => exact absurd hx (hI.here _)
      | _ =>
        rw [hx] at hacc
        exact hacc.elim
    by_cases hact : Activated id tr
    · obtain ⟨hs, i, h', ht, hw, hh, hd⟩ := hown.taken hact
      obtain ⟨jobs, hret⟩ := hall i
      obtain ⟨now, b, hi, hb⟩ := hfetch i jobs hret
      rw [hi] at ht
      exact .inr ⟨hs, i, h', ⟨jobs, hret, hb.mp ht⟩, hw, hh, hd⟩
    · obtain ⟨hs, hh⟩ := hown.waiting hact hput
      obtain ⟨m', hm'⟩ := hI.message
      have hclear : ∀ i, (t (some i)).clear = true := fun i => by
        obtain ⟨jobs, hret⟩ := hall i
        obtain ⟨now, b, hi, -⟩ := hfetch i jobs hret
        have hb : b = false := by
          cases b with
          | false => rfl
          | true => exact absurd (hI.took i (by rw [hi]; rfl)) hact
        rw [hi, hb]
        rfl
      exact .inl ⟨hs, hh, m', hm'.one ▸ List.mem_singleton_self m',
        hm'.visible hclear (by rw [hput]; rfl)⟩

/-! ## One job, one Nack and one Fetch -/

instance (tr : List (Event (Option ι) Call Answer)) (id : String) : Decidable (Activated id tr) :=
  inferInstanceAs (Decidable (∃ _ ∈ tr, _ = _))

instance (cfg : Config) (id : String) (tr : List (Event (Option ι) Call Answer)) (w : World)
    (e : Event (Option ι) Call Answer) : Decidable (HandsOver cfg id tr w e) :=
  decidable_of_iff ((e.call.sets = some (id, .available) → ¬Activated id tr) ∧
      (w.store.jobs.lookup id).all (fun r => !expired cfg w.clock (recordToJob r)) = true)
    ⟨fun h => ⟨h.1, by simpa [Option.all_eq_true] using h.2⟩,
      fun h => ⟨h.first, by simpa [Option.all_eq_true] using h.live⟩⟩

/-- The message of the job, as it was received for the first time. -/
def handMessage : Message where
  id := 0
  queueURL := "ojs-default"
  body := some { demoJob with state := .available }
  visible := false
  receiveCount := 1
  receipt := some ⟨0, 1⟩

def handRecord : JobRecord where
  id := "j1"
  state := .active
  queue := "default"
  sqsReceiptHandle := some ⟨0, 1⟩

def handWorld : World where
  store := { jobs := AList.insert "j1" handRecord ∅ }
  sqs := { queues := AList.insert "ojs-default" none ∅, messages := [handMessage], nextMessage := 1 }
  queueURLs := AList.insert "default" "ojs-default" ∅

theorem handWorld_inHand : InHand demo "j1" handMessage handRecord handWorld := by
  refine ⟨⟨⟨by decide, by decide, fun m hm h hr => ?_⟩, fun queue url hu => ?_, fun i r hr => ?_⟩,
    rfl, rfl, rfl, ⟨_, rfl, rfl⟩, ⟨rfl, _, rfl, rfl⟩⟩
  · rw [List.mem_singleton.mp hm] at hr ⊢
    cases hr
    rfl
  · by_cases hq : queue = "default"
    · subst hq
      rw [handWorld, AList.lookup_insert] at hu
      cases hu
      rfl
    · rw [handWorld, AList.lookup_insert_ne hq] at hu
      cases hu
  · by_cases hi : i = "j1"
    · subst hi
      rw [handWorld, AList.lookup_insert] at hr
      cases hr
      rfl
    · rw [handWorld, AList.lookup_insert_ne hi] at hr
      cases hr

/-- A Fetch of one job from the queue. -/
def oneFetch (_ : Unit) : FetchCall := ⟨1, ["default"], 1, "w2", 0⟩

/-- The Nack is over before the Fetch begins. -/
def nackThenFetch : List (Option Unit × Choice) :=
  [(none, .ok), (none, .tick 0), (none, .ok), (none, .ok), (none, .ok), (none, .ok), (none, .ok),
    (some (), .tick 0), (some (), .ok), (some (), .ok), (some (), .deliver [0]), (some (), .ok),
    (some (), .ok), (some (), .ok)]

/-- The Fetch gets the message the Nack has made visible, and activates the
job before the Nack writes it. -/
def fetchWithinNack : List (Option Unit × Choice) :=
  [(none, .ok), (none, .tick 0), (none, .ok), (none, .ok),
    (some (), .tick 0), (some (), .ok), (some (), .ok), (some (), .deliver [0]), (some (), .ok),
    (some (), .ok), (some (), .ok),
    (none, .ok), (none, .ok), (none, .ok)]

/-- After the Nack the Fetch has the job. -/
theorem requeue_hands_over_next : ∃ tr P, ReturnedJob "j1" P () ∧
    (P.world.store.jobs.lookup "j1").map (·.workerID) = some "w2" ∧
    ChangesHands "j1" oneFetch tr P := by
  have hrun : ∃ out, Pool.script (Rules.act { redrive := false }) (HandsOver demo "j1") []
      nackThenFetch (requeuePool demo "j1" none oneFetch handWorld) = some out ∧
      ReturnedJob "j1" out.2 () ∧
      (out.2.world.store.jobs.lookup "j1").map (·.workerID) = some "w2" :=
    ⟨_, rfl, ⟨_, rfl, _, List.mem_singleton_self _, rfl⟩, rfl⟩
  obtain ⟨⟨tr, P⟩, hscript, hret, hw⟩ := hrun
  exact ⟨tr, P, hret, hw, requeue_hands_over rfl rfl handWorld_inHand
    (Pool.script_run nackThenFetch .start hscript)⟩

/-- A Fetch between the two halves of the Nack loses the job it has returned:
the job is available under its worker. -/
theorem requeue_takes_back : ¬ ∀ (cfg : Config) (ρ : Rules) (id : String) (m : Message)
    (r : JobRecord) (w : World) (jobErr : Option JobError) (f : Unit → FetchCall)
    (tr : List (Event (Option Unit) Call Answer)) (P : Pool (Option Unit) World Call Answer Handout),
    ρ.faults = false → ρ.redrive = false → InHand cfg id m r w →
    Pool.Run ρ.env Pool.anyStep (requeuePool cfg id jobErr f w) tr P → ChangesHands id f tr P := by
  intro hall
  have hrun : ∃ out, Pool.script (Rules.act { redrive := false }) Pool.anyStep []
      fetchWithinNack (requeuePool demo "j1" none oneFetch handWorld) = some out ∧
      ReturnedJob "j1" out.2 () ∧ (out.2.world.store.jobs.lookup "j1").map
        (fun r => (r.state, r.sqsReceiptHandle)) = some (.available, none) :=
    ⟨_, rfl, ⟨_, rfl, _, List.mem_singleton_self _, rfl⟩, rfl⟩
  obtain ⟨⟨tr, P⟩, hscript, hret, hrec⟩ := hrun
  obtain ⟨r, hr, hrec⟩ := Option.map_eq_some_iff.mp hrec
  obtain ⟨hs, hh⟩ := Prod.mk.inj hrec
  exact (hall demo _ "j1" handMessage handRecord handWorld none oneFetch tr P rfl rfl
    handWorld_inHand (Pool.script_run fetchWithinNack .start hscript)).running () hret r hr ⟨hs, hh⟩

end OjsSqs
