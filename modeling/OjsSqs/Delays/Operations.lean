import OjsSqs.Delays.Withheld

/-! # The operations and a withheld job

Every operation leaves a withheld job withheld, until a promoter finds a marker
of it that is due. -/
namespace OjsSqs
open Calls

theorem Time.unixMilli_mono {t t' : Time} (h : t ≤ t') : t.unixMilli ≤ t'.unixMilli :=
  Int.ediv_le_ediv (by decide) h

theorem runs_clock {ρ : Rules} {α : Type} {p : M α} {w w' : World} {a : α}
    (h : Runs ρ.env p w a w') : w.clock ≤ w'.clock := by
  induction h with
  | pure => exact le_refl _
  | call he _ ih => exact (Rules.env_clock he).trans ih

/-- The wait is over, or the job is still withheld. -/
def Waiting (id : String) (T : Int) (w : World) : Prop :=
  T ≤ w.clock.unixMilli ∨ Withheld id T w

variable {cfg : Config} {ρ : Rules} {κ : Regime} {id : String} {T : Int} {w w' : World}

theorem Withheld.outOfReach (h : Withheld id T w) (queues : List String) :
    OutOfReach cfg queues id w := by
  intro queue _ _ m hm
  rw [h.messages] at hm
  cases hm

theorem Withheld.passedOver (h : Withheld id T w) (hp : PassedOver cfg id w w') :
    Withheld id T w' := by
  refine ⟨?_, hp.messages.trans h.messages, hp.dead.trans h.dead, fun i ms hi => ?_⟩
  · rw [hp.job]
    exact h.stored
  · rw [hp.due] at hi
    exact h.due i ms hi

section
variable (hρ : ρ.faults = false)
include hρ

/-- Only an active job is acknowledged or fails. -/
theorem ack_withheld (h : Withheld id T w) (result : Option String) :
    wp ρ.env.every (ack cfg id result) (fun _ w' => w' = w) w := by
  obtain ⟨r, hr, -, hactive⟩ := h.stored
  rw [ack, wp_bind, wp_getJob_some hρ hr]
  simp only
  rw [if_pos hactive]
  rfl

theorem nack_withheld (h : Withheld id T w) (e : Option JobError) (requeue : Bool) :
    wp ρ.env.every (nack cfg id e requeue) (fun _ w' => w' = w) w := by
  obtain ⟨r, hr, -, hactive⟩ := h.stored
  rw [nack, wp_bind, wp_getJob_some hρ hr]
  simp only
  rw [if_pos hactive]
  rfl

/-- A withheld job is not in the dead letter set. -/
theorem retryDeadLetter_withheld (h : Withheld id T w) :
    wp ρ.env.every (retryDeadLetter cfg id) (fun _ w' => w' = w) w := by
  have hd : (w.store.deadLetters.lookup id).isSome = false := h.dead
  rw [retryDeadLetter, wp_bind, wp_isInDeadLetter hρ, hd]
  rfl

/-- A promoter that comes to a withheld job has found its marker due. -/
theorem promote_withheld (h : Withheld id T w) (hn : w.NamedJobs) (i : DueIndex) :
    wp ρ.env.every (promote cfg i) (fun _ w' => Waiting id T w') w := by
  have G : Guards cfg ρ (.withholding id) fun w => Withheld id T w ∧ w.NamedJobs :=
    guards_withheld id T
  rw [promote, wp_bind]
  refine wp_timeNow fun t ht => ?_
  have ht' := G.setClock ⟨h, hn⟩ ht
  rw [wp_bind]
  refine wp_getDueJobs hρ fun ids hpage => ?_
  simp only
  by_cases hid : id ∈ ids
  · have hdue : (w.setClock t).store.isDue i t.unixMilli id = true := by
      rw [Store.isDuePage, Bool.and_eq_true, List.all_eq_true] at hpage
      exact hpage.2 id hid
    rw [Store.isDue] at hdue
    split at hdue
    · rename_i ms hms
      have hle : T ≤ t.unixMilli := (h.due i ms hms).trans (of_decide_eq_true hdue)
      refine (wp_iff_runs _ _ _ _).mpr fun a w' hr => .inl (hle.trans ?_)
      exact Time.unixMilli_mono (runs_clock hr)
    · cases hdue
  · refine wp_mono (Env.every_mono _) _ (G.promoteAll hρ (fun k hk t hki => ?_) (fun job hj hji => ?_)
      none (w.setClock t) ht') fun a w' h' => .inr h'.1
    · exact absurd (hki ▸ hk) hid
    · exact hid (hji ▸ hj)

/-- **One operation.** -/
theorem op_withheld (hg : Good cfg κ [] w) (h : Withheld id T w) {o : Op} {a : o.Result}
    (hfresh : o.Fresh w) (hr : Runs (ρ.reserving o.newIDs).env (o.prog cfg) w a w') :
    Waiting id T w' := by
  have hρ' : (ρ.reserving o.newIDs).faults = false := hρ
  have hn := hg.tidy.named
  have G : Guards cfg (ρ.reserving o.newIDs) (.withholding id)
      fun w => Withheld id T w ∧ w.NamedJobs := guards_withheld id T
  have hcancel : ∀ i now, (Writes.withholding id).rewrite i (.cancel now) :=
    fun _ _ _ => ⟨nofun, nofun⟩
  have hkeep : wp (ρ.reserving o.newIDs).env.every (o.prog cfg)
      (fun _ w' => Withheld id T w' ∧ w'.NamedJobs) w → Waiting id T w' :=
    fun hwp => .inr (wp_runs hwp hr).1
  have hsame : wp (ρ.reserving o.newIDs).env.every (o.prog cfg) (fun _ w' => w' = w) w →
      Waiting id T w' := fun hwp => .inr (wp_runs hwp hr ▸ h)
  cases o with
  | push job => exact hkeep (G.push hfresh.push (.inr hcancel) (.inr trivial) ⟨h, hn⟩)
  | pushBatch jobs => exact hkeep (G.pushBatch hfresh.storable (fun _ _ => .inr trivial) ⟨h, hn⟩)
  | fetch fuel queues count worker vis =>
    have hspares := wp_runs (fetch_spares hρ' hg.tidy (h.outOfReach queues)) hr
    exact .inr (h.passedOver hspares.1.2)
  | ack i result =>
    by_cases hi : i = id
    · subst hi
      exact hsame (ack_withheld hρ' h result)
    · exact hkeep (G.ack (fun _ hii => absurd hii hi) w ⟨h, hn⟩)
  | nack i e requeue =>
    by_cases hi : i = id
    · subst hi
      exact hsame (nack_withheld hρ' h e requeue)
    · have hnacks : (Writes.withholding id).Nacks i e requeue :=
        ⟨fun _ _ hii => absurd hii hi, fun _ _ _ hii => absurd hii hi,
          fun _ _ _ hii => absurd hii hi, hi, hi⟩
      exact hkeep (G.nack hnacks w ⟨h, hn⟩)
  | cancel i => exact hkeep (G.within (apart_cancel (hcancel i)).within w ⟨h, hn⟩)
  | promoteScheduled =>
    exact (wp_iff_runs _ _ _ _).mp (promote_withheld hρ' h hn .scheduled) a w' hr
  | promoteRetries =>
    exact (wp_iff_runs _ _ _ _).mp (promote_withheld hρ' h hn .retry) a w' hr
  | retryDeadLetter i =>
    by_cases hi : i = id
    · subst hi
      exact hsame (retryDeadLetter_withheld hρ' h)
    · exact hkeep (G.retryDeadLetter hρ' (fun _ hii => absurd hii hi)
        (fun job hj hji => hi (hj.symm.trans hji)) w ⟨h, hn⟩)
  | deleteDeadLetter i => exact hkeep (G.within (apart_deleteDeadLetter i).within w ⟨h, hn⟩)

end

end OjsSqs
