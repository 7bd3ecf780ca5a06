import OjsSqs.Atomic.Steps
import OjsSqs.Racing.Ordinary
import OjsSqs.Sqs.Workers

/-! # Visibility timeouts in seconds

`extendVisibility` converts milliseconds with a default and a maximum. Fetch and
Heartbeat convert them on their own. -/
namespace OjsSqs
open Calls

variable (cfg : Config)

/-- The seconds `extendVisibility` asks for. -/
def extendTimeoutSec (visibilityTimeoutMs : Int) : Int :=
  let timeoutSec := int32 (visibilityTimeoutMs.tdiv 1000)
  let timeoutSec :=
    if timeoutSec < 1 then int32 (cfg.defaultVisibilityTimeoutMs.tdiv 1000) else timeoutSec
  if 43200 < timeoutSec then 43200 else timeoutSec

/-- The visibility timeout a call asks for. -/
def Call.visibilitySec? : Call → Option Int
  | .sqs (.receiveMessage _ _ sec) | .sqs (.changeMessageVisibility _ _ sec) => some sec
  | _ => none

/-- The call asks for these seconds, if it asks for any. -/
def Call.Asks (sec : Int) (c : Call) : Prop := ∀ s, c.visibilitySec? = some s → s = sec

/-- A message that was hidden is hidden afterwards. -/
def StaysHidden (q q' : SqsState) : Prop :=
  ∀ m' ∈ q'.messages, m'.visible = true → ∃ m ∈ q.messages, m.id = m'.id ∧ m.visible = true

/-- Fetch and Heartbeat ask for what `extendVisibility` asks for, within the
limits of SQS and without a wrap, and a Heartbeat hides messages only. -/
structure ConvertsLikeExtend (unmarshal : MetaDecoder) (ms : Int) : Prop where
  fetch : ∀ fuel queues count workerID,
    (fetch cfg fuel queues count workerID ms).Only (Call.Asks (extendTimeoutSec cfg ms))
  heartbeat : ∀ workerID activeJobs, (heartbeat cfg unmarshal workerID activeJobs ms).Only
    (Sum.elim (Call.Asks (extendTimeoutSec cfg ms)) fun _ => True)
  range : 1 ≤ extendTimeoutSec cfg ms ∧ extendTimeoutSec cfg ms ≤ 43200
  noWrap : int32 (ms.tdiv 1000) = ms.tdiv 1000
  hidden : ∀ ρ workerID activeJobs w a w',
    Runs (Env.beside (Rules.env ρ) WorkerCall.env) (OjsSqs.heartbeat cfg unmarshal workerID activeJobs ms) w a w' →
    StaysHidden w.1.sqs w'.1.sqs

section
variable {cfg} {ms : Int}

theorem int32_of_range {n : Int} (h : 0 ≤ n) (h' : n ≤ 43200) : int32 n = n :=
  Int.bmod_eq_of_le (by omega) (by omega)

theorem extendTimeoutSec_eq (h : 1000 ≤ ms) (h' : ms < 43201000) :
    extendTimeoutSec cfg ms = ms.tdiv 1000 := by
  have hdiv : ms.tdiv 1000 = ms / 1000 := Int.tdiv_eq_ediv_of_nonneg (by omega)
  have hsec : int32 (ms.tdiv 1000) = ms.tdiv 1000 := by
    rw [hdiv]
    exact int32_of_range (by omega) (by omega)
  rw [extendTimeoutSec, hsec, if_neg (by omega), if_neg (by omega)]

theorem visTimeoutSec_eq (h : 1 ≤ ms) : visTimeoutSec cfg ms = int32 (ms.tdiv 1000) := by
  rw [visTimeoutSec]
  simp only [if_neg (show ¬ ms ≤ 0 by omega)]

/-! ## The calls -/

theorem metaDirective_calls (unmarshal : MetaDecoder) (sec : Int) (ids : List String) :
    (metaDirective unmarshal ids).Only (Call.ofHeartbeat sec) := by
  induction ids with
  | nil => exact Prog.only_pure _
  | cons id ids ih =>
    refine Prog.only_bind (only_getJob trivial) fun a => ?_
    cases a with
    | error e => exact ih
    | ok record =>
      simp only
      split
      · exact Prog.only_pure _
      · exact ih

theorem heartbeat_calls (unmarshal : MetaDecoder) (workerID : String) (activeJobs : List String) :
    (heartbeat cfg unmarshal workerID activeJobs ms).Only
      (Sum.elim (Call.ofHeartbeat (int32 (ms.tdiv 1000))) fun _ => True) := by
  have hworker : ∀ c, (workerCall c).Only
      (Sum.elim (Call.ofHeartbeat (int32 (ms.tdiv 1000))) fun _ => True) :=
    fun c => ⟨trivial, fun _ => trivial⟩
  refine Prog.only_bind (Prog.only_inl.mpr (Prog.only_perform trivial)) fun now => ?_
  refine Prog.only_bind (Prog.only_bind (hworker _) fun _ => Prog.only_pure _) fun _ => ?_
  refine Prog.only_bind (Prog.only_inl.mpr (extendJobs_calls cfg _ activeJobs)) fun _ => ?_
  refine Prog.only_bind ?_ fun _ => Prog.only_pure _
  refine Prog.only_bind (Prog.only_bind (hworker _) fun a => ?_) fun stored => ?_
  · rcases a with e | _ | item <;> exact Prog.only_pure _
  · split
    · exact Prog.only_inl.mpr (metaDirective_calls unmarshal _ activeJobs)
    · exact Prog.only_pure _

theorem Call.asks_ofFetch {worker : String} {sec : Int} {c : Call}
    (h : Call.ofFetch cfg worker sec c) : c.Asks sec := by
  intro s hs
  cases c with
  | sqs c => cases c <;> cases hs <;> first | exact h | cases h
  | _ => cases hs

theorem Call.asks_ofHeartbeat {sec : Int} {c : Call} (h : c.ofHeartbeat sec) : c.Asks sec := by
  intro s hs
  cases c with
  | sqs c => cases c <;> cases hs <;> first | exact h | cases h
  | _ => cases hs

theorem StaysHidden.changeVisibility (q : SqsState) (url : String) (h : Receipt) {sec : Int}
    (hsec : 1 ≤ sec) : StaysHidden q (q.changeVisibility url h sec) := by
  intro m' hm' hv
  obtain ⟨m, hm, rfl⟩ := List.mem_map.mp hm'
  have hneg : ¬ sec ≤ 0 := by omega
  refine ⟨m, hm, ?_, ?_⟩
  · split <;> rfl
  · split at hv
    · simp only [hneg, decide_false, reduceCtorEq] at hv
    · exact hv

theorem StaysHidden.trans {q q' q'' : SqsState} (h : StaysHidden q q') (h' : StaysHidden q' q'') :
    StaysHidden q q'' := by
  intro m'' hm'' hv''
  obtain ⟨m', hm', hid', hv'⟩ := h' m'' hm'' hv''
  obtain ⟨m, hm, hid, hv⟩ := h m' hm' hv'
  exact ⟨m, hm, hid.trans hid', hv⟩

theorem StaysHidden.of_messages {q q' : SqsState} (h : q'.messages = q.messages) :
    StaysHidden q q' := fun m hm hv => ⟨m, h ▸ hm, rfl, hv⟩

/-- What one call of a Heartbeat does to the messages. -/
theorem Call.ofHeartbeat_hides {sec : Int} (hsec : 1 ≤ sec) {ρ : Rules} {c : Call} {w w' : World}
    {r : Answer c} (hc : c.ofHeartbeat sec) (he : ρ.env c w r w') : StaysHidden w.sqs w'.sqs := by
  cases c with
  | dynamo d =>
    obtain ⟨ch, s', -, -, rfl⟩ := Rules.env_dynamo he
    exact .of_messages rfl
  | sqs c =>
    obtain ⟨ch, q', -, hact, rfl⟩ := Rules.env_sqs he
    cases c with
    | changeMessageVisibility url h visSec =>
      cases hc
      cases ch <;> simp only [SqsState.act, Option.some.injEq, Prod.mk.injEq, reduceCtorEq] at hact <;>
        rcases hact with ⟨-, rfl⟩
      · exact .changeVisibility w.sqs url h hsec
      · exact .of_messages rfl
    | createQueue name =>
      cases ch <;> simp only [SqsState.act, Option.some.injEq, Prod.mk.injEq, reduceCtorEq] at hact <;>
        rcases hact with ⟨-, rfl⟩
      · refine .of_messages ?_
        rw [SqsState.createQueue]
        cases w.sqs.queues.lookup name <;> rfl
      · exact .of_messages rfl
    | _ => cases hc
  | proc c =>
    obtain ⟨ch, -, hact⟩ := Rules.env_proc he
    refine .of_messages ?_
    cases c <;> first
      | (cases hc; done)
      | (cases ch <;> simp only [World.actProc, Option.some.injEq, Prod.mk.injEq, reduceCtorEq,
          Option.ite_none_right_eq_some] at hact
         first | (rcases hact with ⟨-, rfl⟩; rfl) | (rcases hact with ⟨-, -, rfl⟩; rfl))

/-- A Heartbeat that asks for a second at least makes nothing visible. -/
theorem heartbeat_hides {unmarshal : MetaDecoder} {ρ : Rules} {workerID : String}
    {activeJobs : List String} {w w' : World × Table WorkerItem} {a : HeartbeatResponse}
    (hsec : 1 ≤ int32 (ms.tdiv 1000))
    (hr : Runs (Env.beside ρ.env WorkerCall.env) (heartbeat cfg unmarshal workerID activeJobs ms)
      w a w') : StaysHidden w.1.sqs w'.1.sqs := by
  let I : World × Table WorkerItem → Prop := fun w' => StaysHidden w.1.sqs w'.1.sqs
  have hstep : ∀ (c : Call ⊕ WorkerCall) w₁ r w₂,
      Sum.elim (Call.ofHeartbeat (int32 (ms.tdiv 1000))) (fun _ => True) c → I w₁ →
      Env.beside ρ.env WorkerCall.env c w₁ r w₂ → I w₂ := by
    intro c w₁ r w₂ hc hs he
    cases c with
    | inl c => exact hs.trans (Call.ofHeartbeat_hides hsec hc he.1)
    | inr c =>
      obtain ⟨-, hw⟩ := he
      change StaysHidden w.1.sqs w₂.1.sqs
      rw [hw]
      exact hs
  have hcalls : (heartbeat cfg unmarshal workerID activeJobs ms).Only _ :=
    heartbeat_calls unmarshal workerID activeJobs
  have hkeep := hcalls.keeps I hstep (show I w from .of_messages rfl)
  exact (wp_iff_runs _ _ _ _).mp hkeep a w' hr

/-- The seconds of a Heartbeat are among its calls. -/
theorem heartbeat_asks {unmarshal : MetaDecoder} {P : Call → Prop}
    (h : (heartbeat cfg unmarshal "w1" ["j1"] ms).Only (Sum.elim P fun _ => True)) :
    ∃ url receipt, P (.sqs (.changeMessageVisibility url receipt (int32 (ms.tdiv 1000)))) := by
  have h := And.right h (0 : Time)
  have h := And.right h (Except.ok ())
  have h := And.right h (Except.ok (some
    { id := "j1", state := .active, sqsReceiptHandle := some ⟨0, 1⟩ }))
  have h := And.right h (some "url")
  exact ⟨_, _, And.left h⟩

/-- **Visibility timeouts.** From one second on and below the maximum the three
conversions are one. -/
theorem converts_iff (unmarshal : MetaDecoder) (h : 0 ≤ ms) :
    ConvertsLikeExtend cfg unmarshal ms ↔ 1000 ≤ ms ∧ ms < 43201000 := by
  have hdiv : ms.tdiv 1000 = ms / 1000 := Int.tdiv_eq_ediv_of_nonneg h
  constructor
  · intro hc
    obtain ⟨url, receipt, hasks⟩ := heartbeat_asks (hc.heartbeat "w1" ["j1"])
    have hsame := hasks _ rfl
    have hrange := hc.range
    rw [← hsame, hc.noWrap, hdiv] at hrange
    omega
  · rintro ⟨hlow, hhigh⟩
    have hext : extendTimeoutSec cfg ms = ms.tdiv 1000 := extendTimeoutSec_eq hlow hhigh
    have hsec : int32 (ms.tdiv 1000) = ms.tdiv 1000 := by
      rw [hdiv]
      exact int32_of_range (by omega) (by omega)
    refine ⟨fun fuel queues count worker => ?_, fun worker ids => ?_, ?_, hsec, ?_⟩
    · have hvis : visTimeoutSec cfg ms = int32 (ms.tdiv 1000) := visTimeoutSec_eq (by omega)
      rw [hext, ← hsec, ← hvis]
      exact (fetch_calls cfg fuel queues count worker ms).mono fun _ => Call.asks_ofFetch
    · rw [hext, ← hsec]
      refine (heartbeat_calls unmarshal worker ids).mono fun c hc => ?_
      cases c with
      | inl c => exact Call.asks_ofHeartbeat hc
      | inr c => trivial
    · rw [hext, hdiv]
      omega
    · intro ρ worker ids w a w' hr
      exact heartbeat_hides (by omega) hr

end

/-- No metadata decodes. -/
def noMeta : MetaDecoder := fun _ => none

theorem converts_thirty_seconds : ConvertsLikeExtend demo noMeta 30000 :=
  (converts_iff noMeta (by decide)).mpr ⟨by decide, by decide⟩

/-- Half a second is no second for a Heartbeat, and the default for
`extendVisibility`. -/
theorem converts_not_half_second :
    extendTimeoutSec demo 500 = 30 ∧ ¬ ConvertsLikeExtend demo noMeta 500 := by
  refine ⟨by decide, fun h => ?_⟩
  obtain ⟨url, receipt, hasks⟩ := heartbeat_asks (h.heartbeat "w1" ["j1"])
  exact absurd (hasks _ rfl) (by decide)

end OjsSqs
