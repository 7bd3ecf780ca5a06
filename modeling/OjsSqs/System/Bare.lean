import OjsSqs.Delays.Withheld

/-! # A world without its workflows

The invariant of the jobs is stated for a system that has no workflows. A
program that only works on jobs cannot tell whether there are any: its run in a
world is a run in the world without the workflows, and it leaves them alone. -/
namespace OjsSqs
open Calls

def Store.bare (s : Store) : Store := { s with workflows := ∅ }

def World.bare (w : World) : World := w.setStore w.store.bare

theorem Store.run_bare {c : DynamoCall} (hc : (Call.dynamo c).ofJobs = true) (s : Store) :
    s.bare.run c = ((s.run c).1, (s.run c).2.bare) := by
  cases c with
  | putQueueItem name =>
    simp only [Store.run, Store.bare]
    split <;> rfl
  | putUniqueItem fp id ttl =>
    simp only [Store.run, Store.bare]
    split <;> rfl
  | _ => first | (cases hc; done) | rfl

theorem Store.act_bare {c : DynamoCall} (hc : (Call.dynamo c).ofJobs = true) (ch : Choice)
    (s : Store) : s.bare.act ch c = (s.act ch c).map fun (a, s') => (a, s'.bare) := by
  have hpage : ∀ i now ids, s.bare.isDuePage i now ids = s.isDuePage i now ids := fun _ _ _ => rfl
  have horder : ∀ i now ids, s.bare.inDueOrder i now ids = s.inDueOrder i now ids := fun _ _ _ => rfl
  have hok : ∀ c, (Call.dynamo c).ofJobs = true → c.isQuery = false →
      s.bare.act .ok c = (s.act .ok c).map fun (a, s') => (a, s'.bare) := by
    intro c hc hq
    rw [Store.act_eq .ok c s.bare rfl hq, Store.act_eq .ok c s rfl hq, Store.run_bare hc]
    rfl
  cases ch with
  | ok =>
    cases hq : c.isQuery with
    | false => exact hok c hc hq
    | true => cases c <;> first | (cases hq; done) | rfl
  | page ids =>
    cases c with
    | queryDue i now =>
      simp only [Store.act, hpage, horder]
      split <;> rfl
    | scanDue i now =>
      simp only [Store.act, hpage]
      split <;> rfl
    | _ => first | (cases hc; done) | rfl
  | noIndex => cases c <;> rfl
  | _ => cases c <;> first | (cases hc; done) | rfl

section
variable {ρ : Rules} {w w' : World} {α : Type} {p : M α} {a : α}

/-- **One call.** -/
theorem Rules.env_bare {c : Call} {r : Answer c} (hc : c.ofJobs = true) (h : ρ.env c w r w') :
    ρ.env c w.bare r w'.bare := by
  cases c with
  | dynamo d =>
    obtain ⟨ch, s', ha, he, rfl⟩ := Rules.env_dynamo h
    refine ⟨ch, Option.ite_none_right_eq_some.mpr ⟨by cases ch <;> exact ha, ?_⟩⟩
    have hact := Store.act_bare hc ch w.store
    rw [he] at hact
    exact Option.map_eq_some_iff.mpr ⟨_, hact, rfl⟩
  | sqs c =>
    obtain ⟨ch, q', ha, he, rfl⟩ := Rules.env_sqs h
    refine ⟨ch, Option.ite_none_right_eq_some.mpr ⟨by cases ch <;> exact ha, ?_⟩⟩
    exact Option.map_eq_some_iff.mpr ⟨_, he, rfl⟩
  | proc c =>
    obtain ⟨ch, ha, he⟩ := Rules.env_proc h
    refine ⟨ch, Option.ite_none_right_eq_some.mpr ⟨by cases ch <;> exact ha, ?_⟩⟩
    cases ch <;> cases c <;> simp only [World.actProc, reduceCtorEq] at he <;>
      first
      | (cases he; rfl)
      | (obtain ⟨hif, he⟩ := Option.ite_none_right_eq_some.mp he
         cases he
         exact Option.ite_none_right_eq_some.mpr ⟨hif, rfl⟩)

theorem Rules.env_ofJobs {c : Call} {r : Answer c} (hc : c.ofJobs = true) (h : ρ.env c w r w') :
    w'.store.workflows = w.store.workflows := by
  refine Rules.env_workflowTable ?_ h
  cases c with
  | dynamo d => cases d <;> first | (cases hc; done) | rfl
  | sqs c => rfl
  | proc c => rfl

/-- **A whole program.** -/
theorem runs_bare (hp : p.Only (·.ofJobs = true)) (h : Runs ρ.env p w a w') :
    Runs ρ.env p w.bare a w'.bare ∧ w'.store.workflows = w.store.workflows := by
  induction h with
  | pure => exact ⟨.pure, rfl⟩
  | call he _ ih =>
    obtain ⟨hr, hw⟩ := ih (hp.2 _)
    exact ⟨.call (Rules.env_bare hp.1 he) hr, hw.trans (Rules.env_ofJobs hp.1 he)⟩

/-- What holds of the program where there are no workflows. -/
theorem wp_bare (hp : p.Only (·.ofJobs = true)) {Q : α → World → Prop}
    (h : wp ρ.env.every p Q w.bare) :
    wp ρ.env.every p (fun a w' => Q a w'.bare ∧ w'.store.workflows = w.store.workflows) w :=
  (wp_iff_runs _ _ _ _).mpr fun _ _ hr => ⟨wp_runs h (runs_bare hp hr).1, (runs_bare hp hr).2⟩

end
end OjsSqs
