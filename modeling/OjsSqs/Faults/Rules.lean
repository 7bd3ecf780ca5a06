import OjsSqs.Calls.Ghost
import OjsSqs.Racing.Footprint
import Mathlib.Data.Fintype.EquivFin

/-! # Calls that may fail

Any AWS call may fail: it reports an error and leaves the world as it was. One
that does not fail does what it does without faults. The rules here are the
two cases of each kind of call, in any environment. -/
namespace OjsSqs
open Calls

/-- The call has failed: DynamoDB or SQS reported an error. A condition that
does not hold is an answer, not a failure. -/
def callFailed : (c : Call) → Answer c → Bool
  | .dynamo _, .error .conditionalCheckFailed => false
  | .dynamo _, .error _ => true
  | .sqs _, .error _ => true
  | _, _ => false

/-- A request that is carried out has not failed. -/
theorem Store.run_not_failed (c : DynamoCall) (s : Store) :
    callFailed (.dynamo c) (s.run c).1 = false := by
  cases c <;> simp only [Store.run] <;> (try split) <;> rfl

theorem SqsCall.run_not_failed (c : SqsCall) (q : SqsState) :
    callFailed (.sqs c) (c.run q).1 = false := by
  cases c <;> rfl

section
variable {ρ : Rules} {w w' : World}

/-- A request to the store is refused, or carried out. -/
theorem Rules.env_dynamo_cases {c : DynamoCall} (hc : c.isPaged = false)
    {r : Except AwsError c.Answer} (h : ρ.env (.dynamo c) w r w') :
    (∃ msg, r = .error (.other msg) ∧ w' = w) ∨
      r = (w.store.run c).1 ∧ w' = w.setStore (w.store.run c).2 := by
  obtain ⟨ch, s', -, he, rfl⟩ := Rules.env_dynamo h
  cases hf : ch.isFault with
  | false =>
    rw [Store.act_eq ch c w.store hf (DynamoCall.isQuery_of_isPaged hc)] at he
    obtain ⟨-, hr⟩ := Option.ite_none_right_eq_some.mp he
    rw [Option.some.inj hr]
    exact .inr ⟨rfl, rfl⟩
  | true =>
    cases ch with
    | fault msg =>
      cases he
      exact .inl ⟨msg, rfl, rfl⟩
    | noIndex => cases c <;> first | (cases hc; done) | cases he
    | firstPage places => cases c <;> first | (cases hc; done) | cases he
    | refuse places => cases he
    | _ => cases hf

/-- A request that has not failed is carried out. -/
theorem Rules.env_done {c : DynamoCall} (hc : c.isPaged = false) {r : Except AwsError c.Answer}
    (h : ρ.env (.dynamo c) w r w') (hok : callFailed (.dynamo c) r = false) :
    r = (w.store.run c).1 ∧ w' = w.setStore (w.store.run c).2 := by
  rcases Rules.env_dynamo_cases hc h with ⟨msg, rfl, -⟩ | hrun
  · cases hok
  · exact hrun

/-- A request to SQS is refused, or carried out. -/
theorem Rules.env_sqs_cases {c : SqsCall} (hc : c.isReceive = false)
    (hb : ∀ url entries, c ≠ .sendMessageBatch url entries)
    {r : Except AwsError c.Answer} (h : ρ.env (.sqs c) w r w') :
    (∃ msg, r = .error (.other msg) ∧ w' = w) ∨
      r = (c.run w.sqs).1 ∧ w' = w.setSqs (c.run w.sqs).2 := by
  obtain ⟨ch, q', -, he, rfl⟩ := Rules.env_sqs h
  cases hf : ch.isFault with
  | false =>
    rw [SqsState.act_eq ch c w.sqs hf hc] at he
    obtain ⟨-, hr⟩ := Option.ite_none_right_eq_some.mp he
    rw [Option.some.inj hr]
    exact .inr ⟨rfl, rfl⟩
  | true =>
    cases ch with
    | fault msg =>
      cases he
      exact .inl ⟨msg, rfl, rfl⟩
    | noIndex => cases he
    | firstPage places => cases he
    | refuse places => cases c <;> first | exact absurd rfl (hb _ _) | cases he
    | _ => cases hf

/-- A list of a workflow's jobs that is answered holds some of them, each once. -/
theorem Rules.env_queryWorkflowJobs {wfID : String} {r : Except AwsError (List String)}
    (h : ρ.env (.dynamo (.queryWorkflowJobs wfID)) w r w') : w' = w ∧ ∀ ids, r = .ok ids →
      (∀ id ∈ ids, id ∈ w.store.jobsOf wfID) ∧ ((w.store.jobsOf wfID).Nodup → ids.Nodup) := by
  obtain ⟨ch, s', -, he, rfl⟩ := Rules.env_dynamo h
  cases ch with
  | ok =>
    cases he
    refine ⟨rfl, fun ids hids => ?_⟩
    cases hids
    exact ⟨fun _ h => h, fun h => h⟩
  | fault msg =>
    cases he
    exact ⟨rfl, fun ids hids => by cases hids⟩
  | firstPage places =>
    obtain ⟨hp, he⟩ := Option.ite_none_right_eq_some.mp he
    cases he
    refine ⟨rfl, fun ids hids => ?_⟩
    cases hids
    refine ⟨fun id hid => ?_, fun hnd => ?_⟩
    · obtain ⟨i, -, hi⟩ := List.mem_filterMap.mp hid
      exact List.mem_of_getElem? hi
    · refine hp.filterMap fun i j id hi hj => ?_
      obtain ⟨hlt, rfl⟩ := List.getElem?_eq_some_iff.mp hi
      obtain ⟨hlt', he⟩ := List.getElem?_eq_some_iff.mp hj
      exact (hnd.getElem_inj_iff.mp he).symm
  | _ => cases he

/-- One that has not failed is answered with a list. -/
theorem Rules.env_listed {wfID : String} {r : Except AwsError (List String)}
    (h : ρ.env (.dynamo (.queryWorkflowJobs wfID)) w r w')
    (hok : callFailed (.dynamo (.queryWorkflowJobs wfID)) r = false) : ∃ ids, r = .ok ids := by
  obtain ⟨ch, s', -, he, -⟩ := Rules.env_dynamo h
  cases ch with
  | ok =>
    cases he
    exact ⟨_, rfl⟩
  | fault msg =>
    cases he
    cases hok
  | firstPage places =>
    obtain ⟨-, he⟩ := Option.ite_none_right_eq_some.mp he
    cases he
    exact ⟨_, rfl⟩
  | _ => cases he

theorem wp_dynamo_faulty {c : DynamoCall} (hc : c.isPaged = false)
    {Q : Except AwsError c.Answer → World → Prop} (hfail : ∀ msg, Q (.error (.other msg)) w)
    (hrun : Q (w.store.run c).1 (w.setStore (w.store.run c).2)) :
    wp ρ.env.every (dynamo c) Q w := by
  intro r w' he
  rcases Rules.env_dynamo_cases hc he with ⟨msg, rfl, rfl⟩ | ⟨rfl, rfl⟩
  · exact hfail msg
  · exact hrun

theorem wp_sqs_faulty {c : SqsCall} (hc : c.isReceive = false)
    (hb : ∀ url entries, c ≠ .sendMessageBatch url entries)
    {Q : Except AwsError c.Answer → World → Prop} (hfail : ∀ msg, Q (.error (.other msg)) w)
    (hrun : Q (c.run w.sqs).1 (w.setSqs (c.run w.sqs).2)) :
    wp ρ.env.every (sqs c) Q w := by
  intro r w' he
  rcases Rules.env_sqs_cases hc hb he with ⟨msg, rfl, rfl⟩ | ⟨rfl, rfl⟩
  · exact hfail msg
  · exact hrun

end

/-! ## Which answers there are -/

section
variable {ρ : Rules} {w w' : World}

/-- The rules without failures. -/
def Rules.calm (ρ : Rules) : Rules := { ρ with faults := false }

theorem Rules.env_calm {c : Call} {r : Answer c} (h : ρ.calm.env c w r w') : ρ.env c w r w' := by
  obtain ⟨ch, he⟩ := h
  obtain ⟨ha, he⟩ := Option.ite_none_right_eq_some.mp he
  refine ⟨ch, Option.ite_none_right_eq_some.mpr ⟨?_, he⟩⟩
  cases ch <;> first | exact ha | exact (Bool.or_eq_true _ _).mpr (.inr rfl) |
    (exact absurd ha (by simp [Rules.admits, Rules.calm, Choice.isFault]))

/-- A call that the environment can answer with the choice. -/
theorem Rules.env_choice {c : Call} {r : Answer c} (ch : Choice) (ha : ρ.admits w ch = true)
    (he : w.act ch c = some (r, w')) : ρ.env c w r w' :=
  ⟨ch, Option.ite_none_right_eq_some.mpr ⟨ha, he⟩⟩

/-- Every call can be answered. -/
theorem Rules.answers (c : Call) (w : World) : ∃ r w', ρ.env c w r w' := by
  have hok : ρ.admits w .ok = true := Rules.admits_ok
  have hpage : ρ.admits w (.page []) = true := by simp [Rules.admits, Choice.isFault]
  cases c with
  | dynamo d =>
    cases d with
    | queryDue i now =>
      have horder : w.store.inDueOrder i now [] = true := by simp [Store.inDueOrder]
      have hact : w.act (.page []) (.dynamo (.queryDue i now)) = some (.ok [], w) := by
        simp only [World.act, Store.act, horder]
        rfl
      exact ⟨_, _, Rules.env_choice (.page []) hpage hact⟩
    | scanDue i now => exact ⟨_, _, Rules.env_choice (.page []) hpage rfl⟩
    | scanCrons => exact ⟨_, _, Rules.env_choice (.page []) hpage rfl⟩
    | _ => exact ⟨_, _, Rules.env_choice .ok hok rfl⟩
  | sqs c =>
    cases c with
    | receiveMessage url max vis =>
      have hnone : ρ.admits w (.deliver []) = true := by simp [Rules.admits, SqsState.noneExhausted]
      have hpick : w.sqs.mayPick url max [] = true := by
        simp [SqsState.mayPick, SqsState.keepsGroups]
      have hact : w.act (.deliver []) (.sqs (.receiveMessage url max vis)) = some (.ok [], w) := by
        simp only [World.act, SqsState.act, hpick]
        rfl
      exact ⟨_, _, Rules.env_choice (.deliver []) hnone hact⟩
    | _ => exact ⟨_, _, Rules.env_choice .ok hok rfl⟩
  | proc c =>
    cases c with
    | now =>
      have hshow : ρ.admits w (.tick w.clock) = true := by simp [Rules.admits]
      have hact : w.act (.tick w.clock) (.proc .now) = some (w.clock, w.setClock w.clock) :=
        if_pos (le_refl _)
      exact ⟨_, _, Rules.env_choice (.tick w.clock) hshow hact⟩
    | newUUIDv7 =>
      obtain ⟨id, hid⟩ := Infinite.exists_notMem_finset ("" :: ρ.reserved ++ w.store.jobs.keys).toFinset
      rw [List.mem_toFinset, List.mem_append, List.mem_cons] at hid
      obtain ⟨hfirst, hnew⟩ := not_or.mp hid
      obtain ⟨hne, hres⟩ := not_or.mp hfirst
      have hadmits : ρ.admits w (.uuid id) = true := decide_eq_true hres
      have hact : w.act (.uuid id) (.proc .newUUIDv7) = some (id, w) :=
        if_pos ⟨hne, AList.lookup_eq_none.mpr fun hin => hnew (AList.mem_keys.mp hin)⟩
      exact ⟨_, _, Rules.env_choice (.uuid id) hadmits hact⟩
    | rangeMap keys =>
      have hact : w.act (.page keys) (.proc (.rangeMap keys)) = some (keys, w) := if_pos (List.Perm.refl _)
      exact ⟨_, _, Rules.env_choice (.page keys) (by simp [Rules.admits, Choice.isFault]) hact⟩
    | _ => exact ⟨_, _, Rules.env_choice .ok hok rfl⟩

end

/-! ## Turns

A loop handles one item after the other. Its ghost knows whose turn it is, and
what has been noted of each turn so far. -/

structure TurnLog (T : Type) where
  turn : Option String := none
  turns : String → Option T := fun _ => none

namespace TurnLog
variable {T : Type} {x : TurnLog T} {k : String}

/-- Note something of the turn that is going on. -/
def inTurn (f : T → T) (x : TurnLog T) : TurnLog T :=
  match x.turn with
  | none => x
  | some k => { x with turns := Function.update x.turns k ((x.turns k).map f) }

/-- The turn of `k` begins. -/
def enter (k : String) (t : T) (x : TurnLog T) : TurnLog T :=
  ⟨some k, Function.update x.turns k (some t)⟩

/-- No turn is going on. -/
def leave (x : TurnLog T) : TurnLog T := { x with turn := none }

theorem inTurn_none (h : x.turn = none) (f : T → T) : x.inTurn f = x := by
  rw [inTurn, h]

/-- In the turn of `k`, with `t` noted of it; the other turns are those of `y`. -/
structure At (y : TurnLog T) (k : String) (t : T) (x : TurnLog T) : Prop where
  turn : x.turn = some k
  turns : x.turns = Function.update y.turns k (some t)

theorem At.enter (y : TurnLog T) (k : String) (t : T) : At y k t (y.enter k t) := ⟨rfl, rfl⟩

theorem At.inTurn {y : TurnLog T} {t : T} (h : At y k t x) (f : T → T) : At y k (f t) (x.inTurn f) := by
  have hx : x.inTurn f = { x with turns := Function.update x.turns k ((x.turns k).map f) } := by
    simp only [TurnLog.inTurn, h.turn]
  rw [hx]
  refine ⟨h.turn, ?_⟩
  simp only [h.turns, Function.update_self, Option.map_some, Function.update_idem]

theorem At.self {y : TurnLog T} {t : T} (h : At y k t x) : x.turns k = some t := by
  rw [h.turns, Function.update_self]

theorem At.other {y : TurnLog T} {t : T} (h : At y k t x) {m : String} (hm : m ≠ k) :
    x.turns m = y.turns m := by
  rw [h.turns, Function.update_of_ne hm]

end TurnLog

end OjsSqs
