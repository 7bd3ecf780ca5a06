import OjsSqs.Lifecycle.Runs
import OjsSqs.Unique.Duplicates

/-! # Unique pushes along a run

A history is a run of Push, Fetch, Ack, Nack and Cancel steps, with the rest
of the system moving between them; it remembers when each stored job was
pushed. In every history each stored job is keyed, so what a Push with policy
`reject` answers is settled by the fate of one key. -/
namespace OjsSqs
open Calls

/-- When each job was pushed: one that is not stored yet would be pushed now. -/
def stamp (born : String → Time) (w : World) (id : String) : Time :=
  if (w.store.jobs.lookup id).isSome then born id else w.clock

section
variable {cfg : Config} {ρ : Rules} {born : String → Time} {w w' : World} {id : String}

theorem Keyed.stamp (h : Keyed cfg born w) : Keyed cfg (stamp born w) w := by
  intro id r fp hr hfp
  rw [OjsSqs.stamp, if_pos (Option.isSome_iff_exists.mpr ⟨r, hr⟩)]
  exact h id r fp hr hfp

theorem Keyed.run {α : Type} {p : M α} {a : α} (h : Keyed cfg born w)
    (hp : p.Only Call.keyless) (hr : Runs ρ.env p w a w') : Keyed cfg born w' :=
  wp_runs (Q := fun _ => Keyed cfg born) (h.keeps hp) hr

/-- The key of a job that is stored next is already there. -/
theorem Keyed.setJob {policy : UniquePolicy} {job : Job} {s : JobState} {t fp : String}
    {item : UniqueItem} (h : Keyed cfg born w) (hfp : computeFingerprint cfg policy job = fp)
    (hitem : w.store.uniqueKeys.lookup fp = some item) (hid : item.jobID = job.id)
    (hle : (born job.id).unix + uniqueTTL cfg policy ≤ item.ttl) :
    Keyed cfg born (w.setJob job.id
      (jobToRecord { sortUniqueKeys policy job with state := s, enqueuedAt := t })) := by
  intro i
  by_cases hi : i = job.id
  · subst hi
    intro r fp' hr hfp'
    rw [World.setJob_lookup] at hr
    cases hr
    obtain ⟨hstored, httl⟩ := @sortUniqueKeys_stored cfg policy job s t
    rw [hstored, hfp] at hfp'
    cases hfp'
    rw [httl]
    exact .inl ⟨item, hitem, hid, hle⟩
  · refine (h i).same (le_refl _) rfl ?_
    exact AList.lookup_insert_ne hi

section
variable (hρ : ρ.faults = false)
include hρ

theorem pushNew_keyed {policy : UniquePolicy} {job : Job} {now : Time} {fp : String}
    {item : UniqueItem} (h : Keyed cfg born w) (hfp : computeFingerprint cfg policy job = fp)
    (hitem : w.store.uniqueKeys.lookup fp = some item) (hid : item.jobID = job.id)
    (hle : (born job.id).unix + uniqueTTL cfg policy ≤ item.ttl) :
    wp ρ.env.every (pushNew cfg now (sortUniqueKeys policy job)) (fun _ => Keyed cfg born) w := by
  have hput := fun s t => h.setJob (s := s) (t := t) hfp hitem hid hle
  rw [pushNew]
  split
  · rw [pushScheduled, wp_bind, wp_putJob hρ]
    refine (Prog.only_bind (keyless_request (c := .putDueItem .scheduled job.id _) trivial)
      fun a => ?_ : Prog.Only Call.keyless _).keeps _ (fun _ _ _ _ hc hk he => hk.call hc he)
      (hput .scheduled _)
    split
    · exact Prog.only_pure _
    · refine Prog.only_bind (keyless_registerQueue _) fun a => ?_
      split <;> exact Prog.only_pure _
  · rw [pushAvailable, wp_bind, wp_putJob hρ]
    refine (Prog.only_bind (keyless_registerQueue _) fun a => ?_ :
      Prog.Only Call.keyless _).keeps _ (fun _ _ _ _ hc hk he => hk.call hc he)
      (hput .available _)
    split
    · exact Prog.only_pure _
    · refine Prog.only_bind (keyless_aside (only_sendToSQS cfg _)) fun a => ?_
      split <;> exact Prog.only_pure _

/-- A Push that goes on has taken the key, at an instant from `start` on. -/
theorem pushUnique_keyed {policy : UniquePolicy} {job : Job} {start : Time}
    (h : Keyed cfg born w) (hstart : start ≤ w.clock) :
    wp ρ.env.every (pushUnique cfg policy job) (fun a w' => Keyed cfg born w' ∧ (a = .ok none →
      ∃ item, w'.store.uniqueKeys.lookup (computeFingerprint cfg policy job) = some item ∧
        item.jobID = job.id ∧ start.unix + uniqueTTL cfg policy ≤ item.ttl)) w := by
  have hfind : wp ρ.env.every (findExisting cfg policy (computeFingerprint cfg policy job))
      (fun _ w₁ => Keyed cfg born w₁ ∧ start ≤ w₁.clock) w :=
    (keyless_ordinary (ordinary_findExisting cfg policy _)).keeps
      (fun w₁ => Keyed cfg born w₁ ∧ start ≤ w₁.clock)
      (fun _ _ _ _ hc hk he => ⟨hk.1.call hc he, hk.2.trans (Rules.env_clock he)⟩) ⟨h, hstart⟩
  rw [pushUnique, wp_bind]
  refine wp_mono (Env.every_mono _) _ hfind fun a w₁ h₁ => ?_
  obtain ⟨hk, hs⟩ := h₁
  split
  · exact ⟨hk, (by rintro ⟨⟩)⟩
  · exact ⟨hk, (by rintro ⟨⟩)⟩
  · rw [wp_bind]
    refine wp_claimUniqueKey hρ (fun item t _ ht => ?_) fun t hnone ht => ?_
    · exact ⟨fun i => (hk i).same ht.1 rfl rfl, (by rintro ⟨⟩)⟩
    · have hle : start.unix ≤ t.unix := Time.unix_mono (hs.trans ht.1)
      refine ⟨fun i => (hk i).keep ht.1 (fun fp item hitem => ?_) fun r _ hr hfp =>
        ⟨r, hr, hfp, rfl⟩, fun _ => ⟨_, AList.lookup_insert _, rfl, Int.add_le_add_right hle _⟩⟩
      have hne : fp ≠ computeFingerprint cfg policy job := by
        rintro rfl
        rw [hnone] at hitem
        cases hitem
      exact (AList.lookup_insert_ne hne).trans hitem

/-- A Push keeps the keys, with the new job's instant. -/
theorem push_keyed {job : Job} (h : Keyed cfg born w)
    (hfresh : job.id = "" ∨ w.store.jobs.lookup job.id = none) :
    wp ρ.env.every (push cfg job) (fun _ => Keyed cfg (stamp born w)) w := by
  have h' := h.stamp
  cases hu : job.unique with
  | none => exact h'.keeps (keyless_push cfg hu)
  | some policy =>
    rw [push, wp_bind]
    refine wp_timeNow fun now hnow => ?_
    have hnow' : Keyed cfg (stamp born w) (w.setClock now) := fun i =>
      (h' i).same hnow.1 rfl rfl
    rw [wp_bind]
    refine wp_assignID hfresh fun i hi _ _ => ?_
    have hborn : stamp born w i ≤ now := by
      have hi' : w.store.jobs.lookup i = none := hi
      rw [stamp, hi']
      exact hnow.1
    simp only [hu]
    rw [wp_bind]
    refine wp_mono (Env.every_mono _) _ (pushUnique_keyed hρ hnow' hborn) fun a w₁ h₁ => ?_
    obtain ⟨hk, hkey⟩ := h₁
    split
    · exact hk
    · exact hk
    · obtain ⟨item, hitem, hid, hle⟩ := hkey rfl
      exact pushNew_keyed hρ hk rfl hitem hid hle

end

/-! ## Histories -/

/-- The operations of a history. -/
def Op.inHistory : Op → Prop
  | .push _ | .fetch _ _ _ _ _ | .ack _ _ | .nack _ _ _ | .cancel _ => True
  | _ => False

/-- The steps of a history: such an operation, or a move of the environment. -/
def Label.inHistory : Label → Prop
  | .op o _ => o.inHistory
  | _ => True

/-- The states of all histories, with the instant each stored job was pushed
at. -/
inductive History (cfg : Config) (ρ : Rules) : (String → Time) → World → Prop
  | start (t : Time) : History cfg ρ (fun _ => t) (.start t)
  | step {born : String → Time} {w w' : World} {l : Label} :
      History cfg ρ born w → l.inHistory → Step cfg ρ w l w' → History cfg ρ (stamp born w) w'

theorem step_keyed {l : Label} (hρ : ρ.faults = false) (h : Keyed cfg born w)
    (hl : l.inHistory) (hs : Step cfg ρ w l w') : Keyed cfg (stamp born w) w' := by
  have h' := h.stamp
  cases hs with
  | op o a hfresh _ hr =>
    have hρ' : (ρ.reserving o.newIDs).faults = false := hρ
    cases o with
    | push job => exact (wp_iff_runs _ _ _ _).mp (push_keyed hρ' h hfresh.push) a w' hr
    | fetch fuel queues count worker vis =>
      exact h'.run (keyless_ordinary (ordinary_fetch cfg fuel queues count worker vis)) hr
    | ack id result => exact h'.run (keyless_ack cfg id result) hr
    | nack id e requeue => exact h'.run (keyless_nack cfg id e requeue) hr
    | cancel id => exact h'.run (keyless_ordinary (ordinary_cancel cfg id)) hr
    | pushBatch | promoteScheduled | promoteRetries | retryDeadLetter | deleteDeadLetter =>
      exact hl.elim
  | expireVisibility id => exact fun i => (h' i).same (le_refl _) rfl rfl
  | ensureDLQ queue url _ hr =>
    have hmoved : Keyed cfg (stamp born w)
        { w with background := w.background.erase (queue, url) } :=
      fun i => (h' i).same (le_refl _) rfl rfl
    exact hmoved.run (keyless_ordinary (ordinary_ensureDLQ cfg queue url)) hr
  | tick t ht => exact fun i => (h' i).same ht rfl rfl
  | expireKey fp item hitem httl =>
    -- the key is gone, but so is its time
    intro i r fp' hr hfp
    rcases h' i r fp' hr hfp with ⟨item', hitem', hid, hle⟩ | hlt
    · by_cases hfp' : fp' = fp
      · subst hfp'
        rw [hitem] at hitem'
        cases hitem'
        exact .inr (lt_of_le_of_lt hle httl)
      · exact .inl ⟨item', (AList.lookup_erase_ne hfp').trans hitem', hid, hle⟩
    · exact .inr hlt

theorem History.keyed (hρ : ρ.faults = false) (h : History cfg ρ born w) : Keyed cfg born w := by
  induction h with
  | start t =>
    intro id r fp hr
    cases hr
  | step _ hl hs ih => exact step_keyed hρ ih hl hs

/-! ## The answer of a Push -/

variable {policy : UniquePolicy} {fp : String} {r : JobRecord}

theorem Time.le_of_unix_lt {s t d n : Int} (h : Time.unix s + n < Time.unix t)
    (hd : d ≤ n * second) : s + d ≤ t := by
  simp only [Time.unix, second] at h hd
  omega

/-- A rival whose key is gone had less time for its key than the policy's
period. -/
theorem Keyed.short (h : Keyed cfg born w) (hr : Rival cfg born policy fp w id r)
    (hgone : w.store.uniqueKeys.lookup fp = none) :
    ¬uniquePeriod cfg policy ≤ keyTTL cfg r * second := by
  have hrecent := hr.recent
  rcases h id r fp hr.stored hr.fingerprint with ⟨item, hitem, -, -⟩ | hlt
  · rw [hgone] at hitem
    cases hitem
  · exact fun hle => absurd hrecent (not_lt.mpr (Time.le_of_unix_lt hlt hle))

/-- **The answer of a Push.** In every history a Push with policy `reject` is
refused as a duplicate just when it has a rival if and only if the key fits
the rivals. -/
theorem push_rejects_duplicates {job : Job} {a : Except Error Job} (hρ : ρ.faults = false)
    (h : History cfg ρ born w) (hu : job.unique = some policy) (hc : conflictOf policy = "reject")
    (hs : Step cfg ρ w (.op (.push job) a) w') :
    (IsDuplicate a ↔
      ∃ id r, Rival cfg born policy (computeFingerprint cfg policy job) w id r) ↔
      KeyFits cfg born policy (computeFingerprint cfg policy job) w := by
  have hk := h.keyed hρ
  have ha : IsDuplicate a ↔
      (w.store.uniqueKeys.lookup (computeFingerprint cfg policy job)).isSome = true := by
    cases hs with
    | op _ _ _ _ hr =>
      have hρ' : (ρ.reserving (Op.push job).newIDs).faults = false := hρ
      exact (wp_iff_runs _ _ _ _).mp (push_duplicate_iff hρ' hu hc) a w' hr
  rw [ha]
  cases hkey : w.store.uniqueKeys.lookup (computeFingerprint cfg policy job) with
  | some item =>
    refine ⟨fun hiff => ⟨fun _ => hiff.mp rfl, fun hnone => ?_⟩, fun hfit => ⟨fun _ => ?_, fun _ => rfl⟩⟩
    · rw [hkey] at hnone
      cases hnone
    · exact hfit.held (by rw [hkey]; rfl)
  | none =>
    refine ⟨fun hiff => ⟨fun hsome => ?_, fun _ i r hr => ?_⟩, fun hfit => ⟨nofun, ?_⟩⟩
    · rw [hkey] at hsome
      cases hsome
    · cases hiff.mpr ⟨i, r, hr⟩
    · rintro ⟨i, r, hr⟩
      exact absurd (hfit.gone hkey i r hr) (hk.short hr hkey)

end

/-! ## A key that outlives its job -/

theorem play_history {cfg : Config} {ρ : Rules} {born : String → Time} {xs : List Act}
    {w w' : World} (hw : History cfg ρ born w) (h : Act.play cfg ρ xs w = some w')
    (hx : ∀ x ∈ xs, ∀ w l w', x.run cfg ρ w = some (l, w') → l.inHistory) :
    ∃ born', History cfg ρ born' w' := by
  induction xs generalizing born w with
  | nil =>
    cases h
    exact ⟨born, hw⟩
  | cons x xs ih =>
    simp only [Act.play] at h
    split at h
    · rename_i l w₁ hr
      refine ih (.step hw (hx x List.mem_cons_self w l w₁ hr) (Act.run_step hr)) h ?_
      exact fun y hy => hx y (List.mem_cons_of_mem _ hy)
    · cases h

/-- The job of the runs with a unique policy, by identifier. -/
def mailJob (id : String) : Job := { demoJob with id := id, unique := some {} }

/-- The mail is pushed; its worker acknowledges it. -/
def mailPush : Act := .op (.push (mailJob "j1"))
  [.tick 0, .ok, .tick 0, .ok, .ok, .ok, .ok, .ok, .ok, .ok, .ok]
def mailAck : Act := .op (.ack "j1" none) [.ok, .tick 0, .ok, .ok, .ok, .ok, .ok, .ok, .ok]

/-- The same mail once more, while its job is waiting and after it is done. -/
def mailTwice : Act := .op (.push (mailJob "j2")) [.tick 0, .ok, .ok]
def mailAgain : Act := .op (.push (mailJob "j2")) [.tick 0, .ok, .ok, .tick 0, .ok]

/-- The answer of a Push's label is a duplicate error. -/
def Label.refused : Label → Bool
  | .op (.push _) (.error e) => decide (e.code? = some .duplicate)
  | _ => false

theorem Label.refused_push {job : Job} {a : Except Error Job}
    (h : Label.refused (.op (.push job) a) = true) : IsDuplicate a := by
  cases a with
  | ok j => cases h
  | error e => exact ⟨e, rfl, of_decide_eq_true h⟩

/-- The mail that is still waiting is refused. -/
theorem push_rejects_duplicates_waiting : ∃ (born : String → Time) (w : World)
    (a : Except Error Job), IsDuplicate a ∧
      ((IsDuplicate a ↔ ∃ id r, Rival demo born {} (computeFingerprint demo {} (mailJob "j2")) w
          id r) ↔
        KeyFits demo born {} (computeFingerprint demo {} (mailJob "j2")) w) := by
  have hrun : ((Act.play demo {} [mailPush] (.start 0)).bind fun w =>
      (mailTwice.run demo {} w).map fun (l, _) => l.refused) = some true := rfl
  obtain ⟨w, hw, hrun⟩ := Option.bind_eq_some_iff.mp hrun
  obtain ⟨⟨l, w'⟩, hstep, hrefused⟩ := Option.map_eq_some_iff.mp hrun
  obtain ⟨born, hhist⟩ := play_history (.start 0) hw fun x hx w l w' hr => by
    rw [List.mem_singleton.mp hx] at hr
    obtain ⟨a, rfl, -⟩ := Act.run_op hr
    exact trivial
  obtain ⟨a, rfl, -⟩ := Act.run_op hstep
  exact ⟨born, w, a, Label.refused_push hrefused,
    push_rejects_duplicates rfl hhist rfl rfl (Act.run_step hstep)⟩

/-- The key outlives its job: the mail is refused although its job is done. -/
theorem push_refused_without_rival : ¬ ∀ (cfg : Config) (ρ : Rules) (born : String → Time)
    (w w' : World) (job : Job) (policy : UniquePolicy) (a : Except Error Job),
    ρ.faults = false → History cfg ρ born w → job.unique = some policy →
    conflictOf policy = "reject" → Step cfg ρ w (.op (.push job) a) w' →
    (IsDuplicate a ↔
      ∃ id r, Rival cfg born policy (computeFingerprint cfg policy job) w id r) := by
  intro hall
  have hrun : ((Act.play demo {} [mailPush, fetchDemo, mailAck] (.start 0)).bind fun w =>
      (mailAgain.run demo {} w).map fun (l, _) =>
        (l.refused, w.store.jobs.entries.all fun e => isTerminalState e.2.state)) =
      some (true, true) := rfl
  obtain ⟨w, hw, hrun⟩ := Option.bind_eq_some_iff.mp hrun
  obtain ⟨⟨l, w'⟩, hstep, hrun⟩ := Option.map_eq_some_iff.mp hrun
  obtain ⟨hrefused, hdone⟩ := Prod.mk.inj hrun
  obtain ⟨born, hhist⟩ := play_history (.start 0) hw fun x hx w l w' hr => by
    simp only [List.mem_cons, List.not_mem_nil, or_false] at hx
    rcases hx with rfl | rfl | rfl <;> (obtain ⟨a, rfl, -⟩ := Act.run_op hr; exact trivial)
  obtain ⟨a, rfl, -⟩ := Act.run_op hstep
  obtain ⟨i, r, hr⟩ := (hall demo {} born w w' (mailJob "j2") {} a rfl hhist rfl rfl
    (Act.run_step hstep)).mp (Label.refused_push hrefused)
  have hmem : (⟨i, r⟩ : Sigma fun _ : String => JobRecord) ∈ w.store.jobs.entries :=
    List.of_mem_dlookup hr.stored
  have hterm := List.all_eq_true.mp hdone _ hmem
  have hrel : (!isTerminalState r.state) = true := hr.relevant
  rw [hterm] at hrel
  cases hrel

end OjsSqs
