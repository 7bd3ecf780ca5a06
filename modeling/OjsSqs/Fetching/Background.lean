import OjsSqs.Calls.Beside
import OjsSqs.Faults.Rules
import OjsSqs.Racing.Ordinary

/-! # What goes on behind a Fetch

A Fetch that opens a queue starts an `ensureDLQ`, which goes on while the Fetch
receives. It gives the queue a redrive policy, and so it decides which messages a
receive still hands out; no other call of the Fetch sees what it does. -/
namespace OjsSqs
open Calls

/-! ## The environment of a Fetch -/

/-- SQS refuses a receive with a negative visibility timeout. -/
def Rules.strictEnv (ρ : Rules) : Env World Call Answer
  | .sqs (.receiveMessage url max vis), w, r, w' =>
    if vis < 0 then (∃ msg, r = .error (.other msg)) ∧ w' = w
    else ρ.env (.sqs (.receiveMessage url max vis)) w r w'
  | c, w, r, w' => ρ.env c w r w'

section
variable {ρ : Rules} {w w' : World}

/-- Where SQS refuses nothing, the rules decide. -/
theorem Rules.strictEnv_iff {c : Call} {r : Answer c}
    (hc : ∀ url max vis, c = .sqs (.receiveMessage url max vis) → 0 ≤ vis) :
    ρ.strictEnv c w r w' ↔ ρ.env c w r w' := by
  cases c with
  | dynamo d => exact Iff.rfl
  | proc c => exact Iff.rfl
  | sqs c =>
    cases c with
    | receiveMessage url max vis =>
      have hvis := hc url max vis rfl
      rw [strictEnv, if_neg (by omega)]
    | _ => exact Iff.rfl

/-- A refusal is a failed call. -/
theorem Rules.strictEnv_le {c : Call} {r : Answer c} (h : ρ.strictEnv c w r w') :
    ({ ρ with faults := true } : Rules).env c w r w' := by
  have hadmits : ∀ ch, ρ.admits w ch = true →
      ({ ρ with faults := true } : Rules).admits w ch = true := by
    intro ch ha
    cases ch <;> first | exact ha | rfl
  have hmore : ρ.env c w r w' → ({ ρ with faults := true } : Rules).env c w r w' := by
    rintro ⟨ch, he⟩
    obtain ⟨ha, he⟩ := Option.ite_none_right_eq_some.mp he
    exact ⟨ch, Option.ite_none_right_eq_some.mpr ⟨hadmits ch ha, he⟩⟩
  cases c with
  | dynamo d => exact hmore h
  | proc c => exact hmore h
  | sqs c =>
    cases c with
    | receiveMessage url max vis =>
      rw [strictEnv] at h
      split at h
      · obtain ⟨⟨msg, rfl⟩, rfl⟩ := h
        exact ⟨.fault msg, rfl⟩
      · exact hmore h
    | _ => exact hmore h

end

/-- The goroutines a call starts. -/
def Call.starts (cfg : Config) : Call → List (M Unit)
  | .proc (.goEnsureDLQ queue url) => [ensureDLQ cfg queue url]
  | _ => []

/-- The environment of a Fetch, with the goroutines that go on behind it. -/
def Rules.behind (ρ : Rules) (cfg : Config) : Env (World × List (M Unit)) Call Answer :=
  ρ.strictEnv.spawning ρ.env (Call.starts cfg)

/-- Those that have been started before. -/
def World.goroutines (cfg : Config) (w : World) : List (M Unit) :=
  w.background.map fun (queue, url) => ensureDLQ cfg queue url

/-- The redrive policies may have changed. -/
def SqsState.setPolicies (policies : Table (Option Nat)) (q : SqsState) : SqsState :=
  { q with queues := policies }

def Redriven (w w' : World) : Prop := ∃ policies, w' = w.setSqs (w.sqs.setPolicies policies)

theorem Redriven.refl (w : World) : Redriven w w := ⟨w.sqs.queues, rfl⟩

theorem Redriven.trans {w w₁ w₂ : World} (h : Redriven w w₁) (h' : Redriven w₁ w₂) :
    Redriven w w₂ := by
  obtain ⟨p, rfl⟩ := h
  obtain ⟨p', rfl⟩ := h'
  exact ⟨p', rfl⟩

/-! ## Calls that do not see it -/

/-- The call sets up queues. -/
def Call.setsUp : Call → Prop
  | .sqs (.createQueue _) | .sqs (.getQueueArn _) | .sqs (.setRedrivePolicy _ _ _) => True
  | _ => False

/-- A call of a Fetch that does not depend on the policies. -/
def Call.overlooks : Call → Prop
  | .dynamo _ | .proc _ | .sqs (.createQueue _) | .sqs (.deleteMessage _ _) => True
  | _ => False

section
variable {cfg : Config} {ρ : Rules} {w w₁ w' : World} {c : Call} {r : Answer c}

theorem ensureDLQ_setsUp (queue url : String) : (ensureDLQ cfg queue url).Only Call.setsUp := by
  refine Prog.only_bind (Prog.only_perform trivial) fun a => ?_
  split
  · exact Prog.only_pure _
  · refine Prog.only_bind (Prog.only_perform trivial) fun a => ?_
    split
    · exact Prog.only_pure _
    · exact Prog.only_pure _
    · exact Prog.only_bind (Prog.only_perform trivial) fun _ => Prog.only_pure _

/-- Setting up queues changes their policies only. -/
theorem Rules.env_setsUp (hc : c.setsUp) (h : ρ.env c w r w') : Redriven w w' := by
  cases c with
  | dynamo d => exact hc.elim
  | proc c => exact hc.elim
  | sqs c =>
    have hrun : c.isReceive = false ∧ (∀ url entries, c ≠ .sendMessageBatch url entries) ∧
        ∃ policies, (c.run w.sqs).2 = w.sqs.setPolicies policies := by
      cases c with
      | createQueue url =>
        refine ⟨rfl, fun _ _ h => (by cases h), ?_⟩
        simp only [SqsCall.run, SqsState.createQueue]
        split <;> exact ⟨_, rfl⟩
      | getQueueArn url => exact ⟨rfl, fun _ _ h => (by cases h), _, rfl⟩
      | setRedrivePolicy url arn n => exact ⟨rfl, fun _ _ h => (by cases h), _, rfl⟩
      | _ => exact hc.elim
    obtain ⟨hreceive, hbatch, policies, hp⟩ := hrun
    rcases Rules.env_sqs_cases hreceive hbatch h with ⟨-, -, rfl⟩ | ⟨-, rfl⟩
    · exact .refl _
    · exact ⟨policies, by rw [hp]⟩

/-- A queue is created, and a message deleted, under any policies. -/
theorem SqsState.act_setPolicies {ch : Choice} {c : SqsCall} {q q' : SqsState}
    {policies : Table (Option Nat)} {r : Except AwsError c.Answer} (hc : (Call.sqs c).overlooks)
    (h : (q.setPolicies policies).act ch c = some (r, q')) :
    (∀ ids, ch ≠ .deliver ids) ∧
      ∃ q₂ policies', q.act ch c = some (r, q₂) ∧ q' = q₂.setPolicies policies' := by
  cases c with
  | createQueue url =>
    have hcreate : ∃ policies', (q.setPolicies policies).createQueue url =
        (q.createQueue url).setPolicies policies' := by
      simp only [createQueue, setPolicies]
      split <;> split <;> exact ⟨_, rfl⟩
    cases ch with
    | ok =>
      obtain ⟨policies', hq⟩ := hcreate
      cases h
      exact ⟨fun _ h => (by cases h), _, policies', rfl, hq⟩
    | fault msg =>
      cases h
      exact ⟨fun _ h => (by cases h), _, policies, rfl, rfl⟩
    | _ => cases h
  | deleteMessage url receipt =>
    cases ch with
    | ok =>
      cases h
      exact ⟨fun _ h => (by cases h), _, policies, rfl, rfl⟩
    | fault msg =>
      cases h
      exact ⟨fun _ h => (by cases h), _, policies, rfl, rfl⟩
    | _ => cases h
  | _ => exact hc.elim

theorem World.actProc_setPolicies {ch : Choice} {c : ProcCall} {r : c.Answer}
    {policies : Table (Option Nat)}
    (h : World.actProc ch c (w.setSqs (w.sqs.setPolicies policies)) = some (r, w')) :
    (∀ ids, ch ≠ .deliver ids) ∧ ∃ w₂, World.actProc ch c w = some (r, w₂) ∧
      w' = w₂.setSqs (w₂.sqs.setPolicies policies) := by
  cases ch with
  | ok =>
    refine ⟨fun _ h => (by cases h), ?_⟩
    cases c <;> first | (cases h; exact ⟨_, rfl, rfl⟩) | cases h
  | tick t =>
    refine ⟨fun _ h => (by cases h), ?_⟩
    cases c <;> first
      | (obtain ⟨hle, h⟩ := Option.ite_none_right_eq_some.mp h; cases h; exact ⟨_, if_pos hle, rfl⟩)
      | cases h
  | uuid id =>
    refine ⟨fun _ h => (by cases h), ?_⟩
    cases c <;> first
      | (obtain ⟨hnew, h⟩ := Option.ite_none_right_eq_some.mp h; cases h; exact ⟨_, if_pos hnew, rfl⟩)
      | cases h
  | page order =>
    refine ⟨fun _ h => (by cases h), ?_⟩
    cases c <;> first
      | (obtain ⟨hperm, h⟩ := Option.ite_none_right_eq_some.mp h; cases h; exact ⟨_, if_pos hperm, rfl⟩)
      | cases h
  | _ => cases c <;> cases h

/-- **Silence.** What a Fetch does apart from its receives it does under any policies. -/
theorem Rules.env_redriven (hc : c.overlooks) (hw : Redriven w w₁) (h : ρ.env c w₁ r w') :
    ∃ w₂, ρ.env c w r w₂ ∧ Redriven w₂ w' := by
  obtain ⟨policies, rfl⟩ := hw
  have hadmits : ∀ ch, (∀ ids, ch ≠ .deliver ids) →
      ρ.admits (w.setSqs (w.sqs.setPolicies policies)) ch = true → ρ.admits w ch = true := by
    intro ch hch ha
    cases ch with
    | deliver ids => exact absurd rfl (hch ids)
    | _ => exact ha
  cases c with
  | dynamo d =>
    obtain ⟨ch, s', ha, he, rfl⟩ := Rules.env_dynamo h
    have hch : ∀ ids, ch ≠ .deliver ids := by
      rintro ids rfl
      cases d <;> cases he
    exact ⟨w.setStore s', Rules.env_choice ch (hadmits ch hch ha)
      (Option.map_eq_some_iff.mpr ⟨_, he, rfl⟩), policies, rfl⟩
  | sqs c =>
    obtain ⟨ch, q', ha, he, rfl⟩ := Rules.env_sqs h
    obtain ⟨hch, q₂, policies', hact, rfl⟩ := SqsState.act_setPolicies hc he
    exact ⟨w.setSqs q₂, Rules.env_choice ch (hadmits ch hch ha)
      (Option.map_eq_some_iff.mpr ⟨_, hact, rfl⟩), policies', rfl⟩
  | proc c =>
    obtain ⟨ch, ha, he⟩ := Rules.env_proc h
    obtain ⟨hch, w₂, hact, rfl⟩ := World.actProc_setPolicies he
    exact ⟨w₂, Rules.env_choice ch (hadmits ch hch ha) hact, policies, rfl⟩

/-! ## Weakest preconditions -/

variable {α : Type} {p : M α} {Q : α → World → Prop}

/-- What the goroutines do is no matter. -/
theorem wp_behind (h : wp (ρ.strictEnv.after Redriven).every p Q w) :
    wp (ρ.behind cfg).every p (fun a x => Q a x.1) (w, w.goroutines cfg) := by
  refine wp_spawning .refl .trans Rules.env_setsUp (fun c g hg => ?_) (fun g hg => ?_) h
  · cases c with
    | proc c =>
      cases c with
      | goEnsureDLQ queue url =>
        obtain rfl := List.mem_singleton.mp hg
        exact ensureDLQ_setsUp queue url
      | _ => cases hg
    | _ => cases hg
  · obtain ⟨⟨queue, url⟩, -, rfl⟩ := List.mem_map.mp hg
    exact ensureDLQ_setsUp queue url

/-- A stretch that does not depend on the policies, where any call may fail. -/
theorem wp_overlooks (hp : p.Only Call.overlooks)
    (hQ : ∀ {a w w'}, Redriven w w' → Q a w → Q a w')
    (h : wp ({ ρ with faults := true } : Rules).env.every p Q w) :
    wp (ρ.strictEnv.after Redriven).every p Q w := by
  refine wp_after_only .refl .trans hp (fun {c w w₁ r w'} hc hw he => ?_) hQ
    (wp_of_every (fun c w r w' => Rules.strictEnv_le) h)
  have hsame : ∀ {w w' : World}, ρ.strictEnv c w r w' ↔ ρ.env c w r w' :=
    Rules.strictEnv_iff fun url max vis h => by
      subst h
      exact hc.elim
  obtain ⟨w₂, he, hw₂⟩ := Rules.env_redriven hc hw (hsame.mp he)
  exact ⟨w₂, hsame.mpr he, hw₂⟩

end
end OjsSqs
