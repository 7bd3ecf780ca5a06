import OjsSqs.System.Writes

/-! # Stored jobs, from one state to a later one

A job that is stored stays stored, and what relates its record to the record it
had is kept by every operation whose rewrites keep it. What no rewrite changes
of a record is always the same; operations on workflows and crons change no
stored record at all. -/
namespace OjsSqs
open Calls

/-- The jobs of `w₀` are still stored, with records that are related to those
they had. -/
structure Relates (R : String → JobRecord → JobRecord → Prop) (w₀ w : World) : Prop where
  named : w.NamedJobs
  stored : ∀ id r₀, w₀.store.jobs.lookup id = some r₀ →
    ∃ r, w.store.jobs.lookup id = some r ∧ R id r₀ r

/-- The writes that keep the relation. -/
def Writes.relating (cfg : Config) (R : String → JobRecord → JobRecord → Prop) (w₀ : World) :
    Writes where
  rewrite i x := ∀ r₀ r sk pk, R i r₀ r → R i r₀ (r.update x.state (x.updates cfg) sk pk)
  create r := w₀.store.jobs.lookup r.id = none
  carry _ := True
  send _ := True
  mark _ _ := True
  bury _ := True

section
variable {cfg : Config} {ρ : Rules} {R : String → JobRecord → JobRecord → Prop}
  {w₀ w w' : World}

theorem Relates.refl (hn : w.NamedJobs) (hR : ∀ id r, R id r r) : Relates R w w :=
  ⟨hn, fun id r hr => ⟨r, hr, hR id r⟩⟩

theorem Relates.trans {w'' : World} (h : Relates R w w') (h' : Relates R w' w'')
    (hR : ∀ id r₁ r₂ r₃, R id r₁ r₂ → R id r₂ r₃ → R id r₁ r₃) : Relates R w w'' := by
  refine ⟨h'.named, fun id r₀ hr₀ => ?_⟩
  obtain ⟨r₁, hr₁, h₁⟩ := h.stored id r₀ hr₀
  obtain ⟨r₂, hr₂, h₂⟩ := h'.stored id r₁ hr₁
  exact ⟨r₂, hr₂, hR id r₀ r₁ r₂ h₁ h₂⟩

theorem Relates.congr (h : Relates R w₀ w) (hjobs : w'.store.jobs = w.store.jobs) :
    Relates R w₀ w' := by
  refine ⟨fun i r hr => h.named i r (hjobs ▸ hr), fun id r₀ hr₀ => ?_⟩
  obtain ⟨r, hr, hR⟩ := h.stored id r₀ hr₀
  exact ⟨r, hjobs ▸ hr, hR⟩

/-- **One call.** -/
theorem Relates.call {c : Call} {a : Answer c} (h : Relates R w₀ w)
    (hc : (Writes.relating cfg R w₀).allows cfg c) (he : ρ.env c w a w') : Relates R w₀ w' := by
  refine ⟨Rules.env_named he h.named, fun id r₀ hr₀ => ?_⟩
  obtain ⟨r, hr, hR⟩ := h.stored id r₀ hr₀
  by_cases hw : c.writesJob = some id
  · cases c with
    | dynamo d =>
      obtain ⟨ch, s', -, hact, rfl⟩ := Rules.env_dynamo he
      rcases Store.act_cases hact with hrun | rfl
      · obtain rfl : s' = (w.store.run d).2 := congrArg Prod.snd hrun
        cases d with
        | putJobItem x =>
          cases hw
          have hnone : w₀.store.jobs.lookup x.id = none := hc
          rw [hnone] at hr₀
          cases hr₀
        | updateJobItem i st us sk pk =>
          cases hw
          obtain ⟨x, hx, rfl, rfl⟩ := hc
          refine ⟨_, AList.lookup_insert _, ?_⟩
          rw [hr]
          exact hx r₀ r sk pk hR
        | _ => cases hw
      · exact ⟨r, hr, hR⟩
    | sqs c => cases hw
    | proc c => cases hw
  · exact ⟨r, (Rules.env_job hw he).trans hr, hR⟩

theorem guards_relates (w₀ : World) :
    Guards cfg ρ (.relating cfg R w₀) (Relates R w₀) where
  keeps _ _ _ _ hc h he := h.call hc he
  stores w job h hn _ _ := by
    have hnone : w₀.store.jobs.lookup job.id = none := by
      cases hr₀ : w₀.store.jobs.lookup job.id with
      | none => rfl
      | some r₀ =>
        obtain ⟨r, hr, -⟩ := h.stored job.id r₀ hr₀
        rw [hn] at hr
        cases hr
    exact ⟨fun _ _ _ => hnone, trivial, fun _ _ => trivial⟩
  named _ h := h.named

end

/-! ## What no step changes -/

variable {cfg : Config} {lib : CronLib} {ρ : Rules} {w w' : World}

/-- **A step keeps what its rewrites keep.** -/
theorem step_relates (hρ : ρ.faults = false) {R : String → JobRecord → JobRecord → Prop}
    (hR : ∀ id r, R id r r) (hn : w.NamedJobs) {l : SystemLabel}
    (hl : ∀ o a, l = .op o a → ∀ id x, o.Makes id x → (Writes.relating cfg R w).rewrite id x)
    (hs : SystemStep cfg lib ρ w l w') : Relates R w w' := by
  have h₀ : Relates R w w := .refl hn hR
  cases hs with
  | op o a hfresh _ hr =>
    have hadmits : (Writes.relating cfg R w).Admits o :=
      ⟨hl o a rfl, fun _ => trivial, fun _ _ => trivial, fun _ => trivial, fun _ _ => trivial⟩
    exact (guards_relates w).op hρ hadmits h₀ hfresh hr
  | env l hop hs => exact (guards_relates w).env (fun _ _ hj h => h.congr hj) h₀ hop hs

/-- The jobs are the same ones. -/
abbrev SameJobs : World → World → Prop := Relates fun _ r r' => r'.fixed = r.fixed

theorem step_sameJobs (hρ : ρ.faults = false) (hn : w.NamedJobs) {l : SystemLabel}
    (hs : SystemStep cfg lib ρ w l w') : SameJobs w w' :=
  step_relates hρ (fun _ _ => rfl) hn
    (fun _ _ _ _ x _ _ r sk pk h => (JobRecord.update_fixed r x.state _ sk pk).trans h) hs

/-- The records are as they were; jobs may have been added. -/
abbrev Extends : World → World → Prop := Relates fun _ r r' => r' = r

theorem flows_extend (w₀ : World) : FlowKeeps cfg ρ (Extends w₀) := (guards_relates w₀).flows

end OjsSqs
