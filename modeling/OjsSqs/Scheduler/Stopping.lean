import OjsSqs.Calls.Path
import OjsSqs.Cron.Processes
import OjsSqs.Scheduler.Loops

/-! # The end of the scheduler

The wait group counts the loops that have not returned, and one call of `Stop` at
most is in the section that closes the channel. So a `Stop` that has returned has
ended the loops, and a `Stop` that has begun can always return. -/

namespace OjsSqs
open Calls

namespace Scheduler

/-! ## What the steps keep -/

/-- The wait group counts the loops that have not returned and those still to begin. -/
def unreturned (s : Scheduler) : Nat := s.loops.countP (fun l => !l.isReturned) + s.starting.length

structure SoundLoops (s : Scheduler) : Prop where
  panic : s.panic = none
  counted : s.wg = s.unreturned
  stop : s.stop = true ↔ s.stopOnce = .done
  closing : ∀ c, s.stopping c = .closing → s.stopOnce = .running
  closer : s.stopOnce = .running → ∃ c, s.stopping c = .closing
  one : ∀ c c', s.stopping c = .closing → s.stopping c' = .closing → c = c'
  past : ∀ c, s.stopping c = .waiting ∨ s.stopping c = .returned → s.stopOnce = .done

section
variable {s s' : Scheduler} {i : Nat} {l l' : RunLoop}

theorem sound_new : SoundLoops {} := by
  constructor <;> simp [unreturned]

theorem onLoop_eq_some {f : RunLoop → Option RunLoop} (h : s.onLoop i f = some s') :
    ∃ l l', s.loops[i]? = some l ∧ f l = some l' ∧ s' = s.setLoop i l' := by
  obtain ⟨l, hl, h⟩ := Option.bind_eq_some_iff.mp h
  obtain ⟨l', hf, hs⟩ := Option.map_eq_some_iff.mp h
  exact ⟨l, l', hl, hf, hs.symm⟩

/-- What the wait group should count when one loop changes. -/
theorem unreturned_setLoop (h : s.loops[i]? = some l) (l' : RunLoop) :
    (s.setLoop i l').unreturned + (!l.isReturned).toNat =
      s.unreturned + (!l'.isReturned).toNat := by
  obtain ⟨hi, hl⟩ := List.getElem?_eq_some_iff.mp h
  have hpos : l.isReturned = false → 0 < s.loops.countP (fun l => !l.isReturned) := by
    intro hr
    exact List.countP_pos_iff.mpr ⟨l, List.mem_of_getElem? h, by simp [hr]⟩
  simp only [unreturned, setLoop, List.countP_set hi, hl]
  cases hr : l.isReturned with
  | true => cases l'.isReturned <;> simp [Nat.add_right_comm]
  | false =>
    have := hpos hr
    cases l'.isReturned <;> simp <;> omega

theorem SoundLoops.setLoop (h : s.SoundLoops) (hl : s.loops[i]? = some l)
    (hr : l'.isReturned = l.isReturned) : (s.setLoop i l').SoundLoops := by
  have hu := unreturned_setLoop hl l'
  rw [hr] at hu
  exact ⟨h.panic, h.counted.trans (Nat.add_right_cancel hu).symm, h.stop, h.closing, h.closer, h.one,
    h.past⟩

end

end Scheduler

namespace RunLoop

variable {fn : LoopName → M (Option Error)} {answer : (c : Call) → Answer c} {l l' : RunLoop}

/-- A step of a loop: it has not returned, and has not returned after it. -/
def Goes (l l' : RunLoop) : Prop := l.isReturned = false ∧ l'.isReturned = false

theorem goes_fires (h : l.fires = some l') : Goes l l' := by
  obtain ⟨hr, hl⟩ := Option.ite_none_left_eq_some.mp h
  cases hl
  have hr : l.isReturned = false := by simpa using hr
  exact ⟨hr, hr⟩

theorem goes_takes (h : l.takes fn = some l') : Goes l l' := by
  unfold takes at h
  split at h
  · rename_i hpc
    obtain ⟨-, hl⟩ := Option.ite_none_right_eq_some.mp h
    cases hl
    simp [Goes, isReturned, hpc]
  · cases h

theorem goes_answered (h : l.answered answer = some l') : Goes l l' := by
  unfold answered at h
  split at h
  · rename_i hpc
    cases h
    simp [Goes, isReturned, hpc]
  · cases h

theorem goes_result {err : Option Error} (h : l.result = some err) :
    Goes l { l with pc := .select } := by
  unfold result at h
  split at h
  · rename_i hpc
    simp [Goes, isReturned, hpc]
  · cases h

theorem atSelect_iff : l.atSelect = true ↔ l.pc = .select := by
  unfold atSelect
  split
  · rename_i hpc
    simp [hpc]
  · rename_i hpc
    simpa using hpc

end RunLoop

namespace Scheduler

section
variable {fn : LoopName → M (Option Error)} {s s' : Scheduler} {l : Label}

theorem unreturned_pos {i : Nat} {x : RunLoop} (hx : s.loops[i]? = some x)
    (hr : x.isReturned = false) : 0 < s.unreturned :=
  Nat.add_pos_left (List.countP_pos_iff.mpr ⟨x, List.mem_of_getElem? hx, by simp [hr]⟩) _

theorem SoundLoops.log (h : s.SoundLoops) (name : LoopName) (err : Option Error) :
    (s.log name err).SoundLoops := by
  cases err with
  | none => exact h
  | some e => exact ⟨h.panic, h.counted, h.stop, h.closing, h.closer, h.one, h.past⟩

/-- A loop that has not returned does. -/
theorem SoundLoops.returns (h : s.SoundLoops) {i : Nat} {x : RunLoop} (hx : s.loops[i]? = some x)
    (hr : x.isReturned = false) : (s.setLoop i { x with pc := .returned }).done.SoundLoops ∧
      (s.setLoop i { x with pc := .returned }).done.unreturned + 1 = s.unreturned := by
  have hu := unreturned_setLoop hx { x with pc := .returned }
  have hret : RunLoop.isReturned { x with pc := .returned } = true := rfl
  rw [hr, hret] at hu
  have hpos := unreturned_pos hx hr
  have hwg : s.wg ≠ 0 := by
    rw [h.counted]
    exact Nat.pos_iff_ne_zero.mp hpos
  have hdone : (s.setLoop i { x with pc := .returned }).done =
      { s.setLoop i { x with pc := .returned } with wg := s.wg - 1 } := by
    unfold done
    exact if_neg hwg
  rw [hdone]
  refine ⟨⟨h.panic, ?_, h.stop, h.closing, h.closer, h.one, h.past⟩, hu⟩
  change s.wg - 1 = (s.setLoop i { x with pc := .returned }).unreturned
  simp only [Bool.not_false, Bool.toNat_true, Bool.not_true, Bool.toNat_false] at hu
  rw [h.counted]
  omega

/-- A call of `Stop` goes on, and none is in the section that closes the channel. -/
theorem SoundLoops.setStopping (h : s.SoundLoops) {c : Nat} {pc : StopPc} (hpc : pc ≠ .closing)
    (hc : s.stopping c ≠ .closing)
    (hpast : pc = .waiting ∨ pc = .returned → s.stopOnce = .done) : (s.setStopping c pc).SoundLoops := by
  have hclosing : ∀ c', Function.update s.stopping c pc c' = .closing → s.stopping c' = .closing := by
    intro c' hc'
    by_cases hcc : c' = c
    · subst hcc
      rw [Function.update_self] at hc'
      exact absurd hc' hpc
    · rwa [Function.update_of_ne hcc] at hc'
  constructor
  · exact h.panic
  · exact h.counted
  · exact h.stop
  · intro c' hc'
    exact h.closing c' (hclosing c' hc')
  · intro hrun
    obtain ⟨c', hc'⟩ := h.closer hrun
    have hcc : c' ≠ c := fun he => hc (he ▸ hc')
    exact ⟨c', (Function.update_of_ne hcc _ _).trans hc'⟩
  · intro c₁ c₂ h₁ h₂
    exact h.one c₁ c₂ (hclosing c₁ h₁) (hclosing c₂ h₂)
  · intro c' hc'
    by_cases hcc : c' = c
    · subst hcc
      simp only [Scheduler.setStopping, Function.update_self] at hc'
      exact hpast hc'
    · simp only [Scheduler.setStopping, Function.update_of_ne hcc] at hc'
      exact h.past c' hc'

/-- The first call comes into `stopOnce.Do`. -/
theorem SoundLoops.enter (h : s.SoundLoops) (hidle : s.stopOnce = .idle) (c : Nat) :
    SoundLoops { s.setStopping c .closing with stopOnce := .running } := by
  have hno : ∀ c', s.stopping c' ≠ .closing := by
    intro c' hc'
    have hrun := h.closing c' hc'
    rw [hidle] at hrun
    cases hrun
  have honly : ∀ c', Function.update s.stopping c .closing c' = .closing → c' = c := by
    intro c' hc'
    by_contra hcc
    rw [Function.update_of_ne hcc] at hc'
    exact hno c' hc'
  constructor
  · exact h.panic
  · exact h.counted
  · have hopen := h.stop
    rw [hidle] at hopen
    simpa [Scheduler.setStopping] using hopen
  · intro c' _
    rfl
  · intro _
    exact ⟨c, Function.update_self ..⟩
  · intro c₁ c₂ h₁ h₂
    rw [honly c₁ h₁, honly c₂ h₂]
  · intro c' hc'
    have hcc : c' ≠ c := by
      intro he
      subst he
      simp [Scheduler.setStopping] at hc'
    simp only [Scheduler.setStopping, Function.update_of_ne hcc] at hc'
    have hdone := h.past c' hc'
    rw [hidle] at hdone
    cases hdone

/-- It closes the channel, which is open. -/
theorem SoundLoops.close (h : s.SoundLoops) {c : Nat} (hc : s.stopping c = .closing) :
    SoundLoops { s.closeStop.setStopping c .waiting with stopOnce := .done } ∧ s.stop = false := by
  have hopen : s.stop = false := by
    rw [Bool.eq_false_iff]
    intro hs
    have hdone := h.stop.mp hs
    rw [h.closing c hc] at hdone
    cases hdone
  have hno : ∀ c', Function.update s.stopping c .waiting c' ≠ .closing := by
    intro c' hc'
    by_cases hcc : c' = c
    · subst hcc
      rw [Function.update_self] at hc'
      cases hc'
    · rw [Function.update_of_ne hcc] at hc'
      exact hcc (h.one c' c hc' hc)
  have hclose : s.closeStop = { s with stop := true } := by simp [closeStop, hopen]
  rw [hclose]
  refine ⟨?_, hopen⟩
  constructor
  · exact h.panic
  · exact h.counted
  · simp [Scheduler.setStopping]
  · intro c' hc'
    exact absurd hc' (hno c')
  · intro hrun
    cases hrun
  · intro c₁ c₂ h₁ _
    exact absurd h₁ (hno c₁)
  · intro c' _
    rfl

theorem SoundLoops.onLoop (h : s.SoundLoops) {i : Nat} {f : RunLoop → Option RunLoop}
    (hf : ∀ x x', f x = some x' → RunLoop.Goes x x') (hs : s.onLoop i f = some s') :
    s'.SoundLoops ∧ s'.unreturned = s.unreturned ∧ 0 < s.unreturned := by
  obtain ⟨x, x', hx, hfx, rfl⟩ := onLoop_eq_some hs
  obtain ⟨hr, hr'⟩ := hf x x' hfx
  have hu := unreturned_setLoop hx x'
  rw [hr, hr'] at hu
  exact ⟨h.setLoop hx (hr'.trans hr.symm), Nat.add_right_cancel hu, unreturned_pos hx hr⟩

/-- **One step.** It keeps what is sound; only a `Start` adds a loop; and a step of a loop says
that some loop had not returned. -/
theorem SoundLoops.step (h : s.SoundLoops) (hs : s.step fn l = some s') :
    s'.SoundLoops ∧ (l ≠ .start → s'.unreturned ≤ s.unreturned) ∧
      (l.ofLoops = true → 0 < s.unreturned) := by
  cases l with
  | start =>
    obtain ⟨hnone, hs⟩ := Option.ite_none_right_eq_some.mp hs
    cases hs
    have hc := h.counted
    simp only [unreturned, hnone, List.length_nil, Nat.add_zero] at hc
    refine ⟨⟨h.panic, ?_, h.stop, h.closing, h.closer, h.one, h.past⟩, fun hne => absurd rfl hne, ?_⟩
    · simp [unreturned, hc]
    · intro hl
      cases hl
  | go =>
    simp only [Scheduler.step] at hs
    split at hs
    · cases hs
    · rename_i name rest hstart
      cases hs
      have hu : unreturned { s with starting := rest, loops := s.loops ++ [{ name := name }] } =
          s.unreturned := by
        simp only [unreturned, hstart, List.countP_append, List.countP_singleton, List.length_cons]
        simp [RunLoop.isReturned, Nat.add_assoc, Nat.add_comm]
      refine ⟨⟨h.panic, h.counted.trans hu.symm, h.stop, h.closing, h.closer, h.one, h.past⟩,
        fun _ => hu.le, ?_⟩
      intro _
      simp only [unreturned, hstart, List.length_cons]
      omega
  | tick i =>
    obtain ⟨hsound, hu, hpos⟩ := h.onLoop (fun _ _ => RunLoop.goes_fires) hs
    exact ⟨hsound, fun _ => hu.le, fun _ => hpos⟩
  | takeTick i =>
    obtain ⟨hsound, hu, hpos⟩ := h.onLoop (fun _ _ => RunLoop.goes_takes) hs
    exact ⟨hsound, fun _ => hu.le, fun _ => hpos⟩
  | call i answer =>
    obtain ⟨hsound, hu, hpos⟩ := h.onLoop (fun _ _ => RunLoop.goes_answered) hs
    exact ⟨hsound, fun _ => hu.le, fun _ => hpos⟩
  | ran i =>
    obtain ⟨x, hx, hs⟩ := Option.bind_eq_some_iff.mp hs
    obtain ⟨err, herr, rfl⟩ := Option.map_eq_some_iff.mp hs
    obtain ⟨hr, hr'⟩ := RunLoop.goes_result herr
    have hu := unreturned_setLoop hx { x with pc := .select }
    rw [hr, hr'] at hu
    have hlog : ((s.setLoop i { x with pc := .select }).log x.name err).unreturned =
        (s.setLoop i { x with pc := .select }).unreturned := by
      cases err <;> rfl
    exact ⟨(h.setLoop hx (hr'.trans hr.symm)).log _ _,
      fun _ => (hlog.trans (Nat.add_right_cancel hu)).le, fun _ => unreturned_pos hx hr⟩
  | takeStop i =>
    obtain ⟨x, hx, hs⟩ := Option.bind_eq_some_iff.mp hs
    obtain ⟨⟨hsel, -⟩, hs⟩ := Option.ite_none_right_eq_some.mp hs
    cases hs
    have hr : x.isReturned = false := by
      simp [RunLoop.isReturned, RunLoop.atSelect_iff.mp hsel]
    obtain ⟨hsound, hu⟩ := h.returns hx hr
    exact ⟨hsound, fun _ => by omega, fun _ => unreturned_pos hx hr⟩
  | stop c =>
    obtain ⟨hidle, hs⟩ := Option.ite_none_right_eq_some.mp hs
    cases hs
    refine ⟨h.setStopping (by decide) (by simp [hidle]) (by simp), fun _ => le_rfl, ?_⟩
    intro hl
    cases hl
  | once c =>
    obtain ⟨hent, hs⟩ := Option.ite_none_right_eq_some.mp hs
    split at hs
    · rename_i hidle
      cases hs
      refine ⟨h.enter hidle c, fun _ => le_rfl, ?_⟩
      intro hl
      cases hl
    · cases hs
    · rename_i hdone
      cases hs
      refine ⟨h.setStopping (by decide) (by simp [hent]) (fun _ => hdone), fun _ => le_rfl, ?_⟩
      intro hl
      cases hl
  | close c =>
    obtain ⟨hc, hs⟩ := Option.ite_none_right_eq_some.mp hs
    cases hs
    obtain ⟨hsound, hopen⟩ := h.close hc
    refine ⟨hsound, fun _ => ?_, ?_⟩
    · simp [closeStop, hopen, Scheduler.setStopping, unreturned]
    · intro hl
      cases hl
  | wait c =>
    obtain ⟨⟨hw, -⟩, hs⟩ := Option.ite_none_right_eq_some.mp hs
    cases hs
    refine ⟨h.setStopping (by decide) (by simp [hw]) (fun _ => h.past c (.inl hw)),
      fun _ => le_rfl, ?_⟩
    intro hl
    cases hl

end

/-! ## After a `Stop` has returned -/

/-- The runs of the scheduler. -/
abbrev Runs (fn : LoopName → M (Option Error)) : List Label → Scheduler → Prop :=
  Path (fun s l s' => s.step fn l = some s') {}

/-- What is known of a run: who has begun to stop, what has been closed, and that after a `Stop`
that has returned no loop has gone on. -/
structure Stopped (ls : List Label) (s : Scheduler) : Prop where
  sound : s.SoundLoops
  begun : ∀ c, s.stopping c ≠ .idle → .stop c ∈ ls
  closes : ls.countP Label.isClose = s.stop.toNat
  ended : ∀ c, .wait c ∈ ls → .stop c ∈ ls ∧ s.unreturned = 0
  quiet : ∀ before c after, ls = before ++ .wait c :: after → ∀ l ∈ after, l.ofLoops = false

theorem stopped_new : Stopped [] {} where
  sound := sound_new
  begun c hc := absurd rfl hc
  closes := rfl
  ended c hc := by cases hc
  quiet before c after h := by cases before <;> cases h

section
variable {fn : LoopName → M (Option Error)} {s s' : Scheduler} {l : Label} {ls : List Label}

/-- A step of a loop leaves the calls of `Stop` alone. -/
theorem step_aside (hl : l.ofLoops = true) (hs : s.step fn l = some s') :
    s'.stopping = s.stopping ∧ s'.stop = s.stop ∧ s'.stopOnce = s.stopOnce := by
  have honLoop : ∀ {i f}, s.onLoop i f = some s' →
      s'.stopping = s.stopping ∧ s'.stop = s.stop ∧ s'.stopOnce = s.stopOnce := by
    intro i f h
    obtain ⟨x, x', -, -, rfl⟩ := onLoop_eq_some h
    exact ⟨rfl, rfl, rfl⟩
  cases l with
  | go =>
    simp only [Scheduler.step] at hs
    split at hs
    · cases hs
    · cases hs
      exact ⟨rfl, rfl, rfl⟩
  | tick i => exact honLoop hs
  | takeTick i => exact honLoop hs
  | call i answer => exact honLoop hs
  | ran i =>
    obtain ⟨x, -, hs⟩ := Option.bind_eq_some_iff.mp hs
    obtain ⟨err, -, rfl⟩ := Option.map_eq_some_iff.mp hs
    cases err <;> exact ⟨rfl, rfl, rfl⟩
  | takeStop i =>
    obtain ⟨x, -, hs⟩ := Option.bind_eq_some_iff.mp hs
    obtain ⟨-, hs⟩ := Option.ite_none_right_eq_some.mp hs
    cases hs
    unfold done
    split <;> exact ⟨rfl, rfl, rfl⟩
  | _ => cases hl

/-- Only a call that has begun gets on. -/
theorem step_begun (hs : s.step fn l = some s') {c : Nat} (hc : s'.stopping c ≠ .idle) :
    s.stopping c ≠ .idle ∨ l = .stop c := by
  have hset : ∀ {c' pc}, s.stopping c' ≠ .idle ∨ l = .stop c' →
      Function.update s.stopping c' pc c ≠ .idle → s.stopping c ≠ .idle ∨ l = .stop c := by
    intro c' pc hb hu
    by_cases hcc : c = c'
    · exact hcc ▸ hb
    · rw [Function.update_of_ne hcc] at hu
      exact .inl hu
  cases hl : l.ofLoops with
  | true =>
    rw [(step_aside hl hs).1] at hc
    exact .inl hc
  | false =>
    cases l with
    | start =>
      obtain ⟨-, hs⟩ := Option.ite_none_right_eq_some.mp hs
      cases hs
      exact .inl hc
    | stop c' =>
      obtain ⟨-, hs⟩ := Option.ite_none_right_eq_some.mp hs
      cases hs
      exact hset (.inr rfl) hc
    | once c' =>
      obtain ⟨hent, hs⟩ := Option.ite_none_right_eq_some.mp hs
      have hb : s.stopping c' ≠ .idle := by simp [hent]
      split at hs
      · cases hs
        exact hset (.inl hb) hc
      · cases hs
      · cases hs
        exact hset (.inl hb) hc
    | close c' =>
      obtain ⟨hcl, hs⟩ := Option.ite_none_right_eq_some.mp hs
      cases hs
      have hb : s.stopping c' ≠ .idle := by simp [hcl]
      unfold closeStop at hc
      split at hc
      · exact hset (.inl hb) hc
      · exact hset (.inl hb) hc
    | wait c' =>
      obtain ⟨⟨hw, -⟩, hs⟩ := Option.ite_none_right_eq_some.mp hs
      cases hs
      exact hset (.inl (by simp [hw])) hc
    | _ => cases hl

/-- Only the close of the channel closes it. -/
theorem SoundLoops.step_stop (h : s.SoundLoops) (hs : s.step fn l = some s') :
    s'.stop.toNat = s.stop.toNat + if l.isClose then 1 else 0 := by
  cases hl : l.ofLoops with
  | true =>
    rw [(step_aside hl hs).2.1]
    cases l <;> first | rfl | cases hl
  | false =>
    cases l with
    | start =>
      obtain ⟨-, hs⟩ := Option.ite_none_right_eq_some.mp hs
      cases hs
      rfl
    | stop c' =>
      obtain ⟨-, hs⟩ := Option.ite_none_right_eq_some.mp hs
      cases hs
      rfl
    | once c' =>
      obtain ⟨-, hs⟩ := Option.ite_none_right_eq_some.mp hs
      split at hs
      · cases hs
        rfl
      · cases hs
      · cases hs
        rfl
    | close c' =>
      obtain ⟨hcl, hs⟩ := Option.ite_none_right_eq_some.mp hs
      cases hs
      have hopen := (h.close hcl).2
      simp [closeStop, hopen, Scheduler.setStopping, Label.isClose]
    | wait c' =>
      obtain ⟨-, hs⟩ := Option.ite_none_right_eq_some.mp hs
      cases hs
      rfl
    | _ => cases hl

theorem Stopped.step (h : Stopped ls s) (hs : s.step fn l = some s')
    (hstart : l = .start → ∀ c, .stop c ∉ ls) : Stopped (ls ++ [l]) s' := by
  obtain ⟨hsound, hless, hpos⟩ := h.sound.step hs
  have hwait : ∀ c, .wait c ∈ ls → l ≠ .start ∧ l.ofLoops = false := by
    intro c hc
    obtain ⟨hstop, hzero⟩ := h.ended c hc
    constructor
    · intro hl
      exact hstart hl c hstop
    · rw [Bool.eq_false_iff]
      intro hl
      have := hpos hl
      omega
  constructor
  · exact hsound
  · intro c hc
    obtain hb | rfl := step_begun hs hc
    · exact List.mem_append_left _ (h.begun c hb)
    · simp
  · rw [List.countP_append, List.countP_singleton, h.closes, h.sound.step_stop hs]
  · intro c hc
    obtain hc | hc := List.mem_append.mp hc
    · obtain ⟨hstop, hzero⟩ := h.ended c hc
      exact ⟨List.mem_append_left _ hstop, Nat.le_zero.mp (hzero ▸ hless (hwait c hc).1)⟩
    · obtain rfl := List.mem_singleton.mp hc
      obtain ⟨⟨hw, hz⟩, -⟩ := Option.ite_none_right_eq_some.mp hs
      have hzero : s.unreturned = 0 := h.sound.counted.symm.trans hz
      exact ⟨List.mem_append_left _ (h.begun c (by simp [hw])),
        Nat.le_zero.mp (hzero ▸ hless (fun hl => (by cases hl)))⟩
  · intro before c after heq
    obtain rfl | ⟨after, x, rfl⟩ := List.eq_nil_or_concat' after
    · intro y hy
      cases hy
    · rw [← List.cons_append, ← List.append_assoc] at heq
      obtain ⟨hls, hx⟩ := List.append_inj' heq rfl
      cases hx
      intro y hy
      obtain hy | hy := List.mem_append.mp hy
      · exact h.quiet before c after hls y hy
      · rw [List.mem_singleton.mp hy]
        exact (hwait c (by simp [hls])).2

theorem StartsFirst.of_snoc (h : StartsFirst (ls ++ [l])) :
    StartsFirst ls ∧ (l = .start → ∀ c, .stop c ∉ ls) := by
  constructor
  · intro before c after heq hmem
    exact h before c (after ++ [l]) (by simp [heq]) (List.mem_append_left _ hmem)
  · rintro rfl c hc
    obtain ⟨before, after, rfl⟩ := List.append_of_mem hc
    exact h before c (after ++ [.start]) (by simp) (by simp)

/-- **A `Stop` that has returned has ended the loops.** However many calls of `Stop` there are and
whatever their order, nothing panics, the channel is closed once at most, and after one of them has
returned no loop takes a step, and so none makes a call of the backend. -/
theorem stop_ends_loops (hr : Scheduler.Runs fn ls s) (hfirst : StartsFirst ls) : Stopped ls s := by
  induction hr with
  | nil => exact stopped_new
  | snoc _ hs ih =>
    obtain ⟨hearlier, hlast⟩ := hfirst.of_snoc
    exact (ih hearlier).step hs hlast

end

/-! ## A `Stop` that has begun can return -/

/-- The steps that are left when no ticker fires any more: the loops finish what they run, with the
given answers, and return, and the calls of `Stop` go on. -/
def Label.settles (answer : (c : Call) → Answer c) : Label → Prop
  | .call _ a => a = answer
  | .go | .ran _ | .takeStop _ | .once _ | .close _ | .wait _ => True
  | _ => False

/-- One such step. The answers may depend on all steps before it. -/
def SettleStep (fn : LoopName → M (Option Error)) (answer : List Label → (c : Call) → Answer c) :
    List Label × Scheduler → Label → List Label × Scheduler → Prop :=
  fun x l x' => x.2.step fn l = some x'.2 ∧ x'.1 = x.1 ++ [l] ∧ l.settles (answer x.1)

/-- Such steps lead from the one state to the other. -/
def Settles (fn : LoopName → M (Option Error)) (answer : List Label → (c : Call) → Answer c)
    (x x' : List Label × Scheduler) : Prop :=
  ∃ ls, Path (SettleStep fn answer) x ls x'

section
variable {fn : LoopName → M (Option Error)} {answer : List Label → (c : Call) → Answer c}
  {s s' : Scheduler} {x x' x'' : List Label × Scheduler} {l : Label}

theorem Settles.refl (x : List Label × Scheduler) : Settles fn answer x x := ⟨[], .nil⟩

theorem Settles.trans (h : Settles fn answer x x') (h' : Settles fn answer x' x'') :
    Settles fn answer x x'' := by
  obtain ⟨ls, hp⟩ := h
  obtain ⟨ls', hp'⟩ := h'
  exact ⟨ls ++ ls', hp.append hp'⟩

theorem Settles.of_step (hs : x.2.step fn l = some s') (hl : l.settles (answer x.1)) :
    Settles fn answer x (x.1 ++ [l], s') :=
  ⟨[l], .single ⟨hs, rfl, hl⟩⟩

theorem Settles.sound (hset : Settles fn answer x x') (h : x.2.SoundLoops) :
    x'.2.SoundLoops ∧ x'.2.unreturned ≤ x.2.unreturned := by
  obtain ⟨ls, hp⟩ := hset
  induction hp with
  | nil => exact ⟨h, le_rfl⟩
  | snoc _ hs ih =>
    obtain ⟨hsound, hle⟩ := ih
    obtain ⟨hs, -, hlast⟩ := hs
    obtain ⟨hsound', hless, -⟩ := hsound.step hs
    refine ⟨hsound', (hless ?_).trans hle⟩
    rintro rfl
    exact hlast

variable (fn answer)

/-- `Start` comes to its end. -/
theorem settles_started (x : List Label × Scheduler) : ∃ x', Settles fn answer x x' ∧
    x'.2.starting = [] ∧ x'.2.stop = x.2.stop ∧ x'.2.stopping = x.2.stopping := by
  induction hst : x.2.starting generalizing x with
  | nil => exact ⟨x, .refl x, hst, rfl, rfl⟩
  | cons name rest ih =>
    have hs : x.2.step fn .go =
        some { x.2 with starting := rest, loops := x.2.loops ++ [{ name := name }] } := by
      simp only [Scheduler.step, hst]
    obtain ⟨x', hset, hend⟩ := ih
      (x.1 ++ [.go], { x.2 with starting := rest, loops := x.2.loops ++ [{ name := name }] }) rfl
    exact ⟨x', (Settles.of_step hs trivial).trans hset, hend⟩

/-- A loop that runs its function comes back to its `select`. -/
theorem settles_ran {i : Nat} (p : M (Option Error)) : ∀ {x : List Label × Scheduler} {loop : RunLoop},
    x.2.loops[i]? = some loop → loop.pc = .running p →
    ∃ x', Settles fn answer x x' ∧ x'.2.loops[i]? = some { loop with pc := .select } ∧
      x'.2.starting = x.2.starting ∧ x'.2.stop = x.2.stop ∧ x'.2.stopping = x.2.stopping := by
  induction p with
  | pure err =>
    intro x loop hx hpc
    have hi := (List.getElem?_eq_some_iff.mp hx).1
    have hs : x.2.step fn (.ran i) =
        some ((x.2.setLoop i { loop with pc := .select }).log loop.name err) := by
      simp [Scheduler.step, hx, RunLoop.result, hpc]
    refine ⟨_, .of_step hs trivial, ?_⟩
    cases err <;> simp [Scheduler.log, setLoop, hi]
  | call c k ih =>
    intro x loop hx hpc
    have hi := (List.getElem?_eq_some_iff.mp hx).1
    have hs : x.2.step fn (.call i (answer x.1)) =
        some (x.2.setLoop i { loop with pc := .running (k (answer x.1 c)) }) := by
      simp [Scheduler.step, onLoop, hx, RunLoop.answered, hpc]
    have hx' : (x.2.setLoop i { loop with pc := .running (k (answer x.1 c)) }).loops[i]? =
        some { loop with pc := .running (k (answer x.1 c)) } := by
      simp [setLoop, hi]
    obtain ⟨x', hset, hloop, hsame⟩ := ih (answer x.1 c)
      (x := (x.1 ++ [.call i (answer x.1)], _)) hx' rfl
    exact ⟨x', (Settles.of_step hs rfl).trans hset, hloop, hsame⟩

/-- When the channel is closed a loop can return. -/
theorem settles_returned (h : x.2.SoundLoops) (hstop : x.2.stop = true) {i : Nat} {loop : RunLoop}
    (hx : x.2.loops[i]? = some loop) (hr : loop.isReturned = false) :
    ∃ x', Settles fn answer x x' ∧ x'.2.unreturned < x.2.unreturned ∧
      x'.2.starting = x.2.starting ∧ x'.2.stop = true ∧ x'.2.stopping = x.2.stopping := by
  have hselect : ∀ {x : List Label × Scheduler} {loop : RunLoop}, x.2.SoundLoops → x.2.stop = true →
      x.2.loops[i]? = some loop → loop.pc = .select →
      ∃ x', Settles fn answer x x' ∧ x'.2.unreturned < x.2.unreturned ∧
        x'.2.starting = x.2.starting ∧ x'.2.stop = true ∧ x'.2.stopping = x.2.stopping := by
    intro x loop h hstop hx hpc
    have hs : x.2.step fn (.takeStop i) = some (x.2.setLoop i { loop with pc := .returned }).done := by
      simp [Scheduler.step, hx, RunLoop.atSelect_iff.mpr hpc, hstop]
    obtain ⟨-, hu⟩ := h.returns hx (by simp [RunLoop.isReturned, hpc])
    refine ⟨_, .of_step hs trivial, by simp only; omega, ?_⟩
    simp only
    unfold done
    split <;> exact ⟨rfl, hstop, rfl⟩
  cases hpc : loop.pc with
  | select => exact hselect h hstop hx hpc
  | running p =>
    obtain ⟨x₁, hset, hx₁, hstart, hs₁, hstopping⟩ := settles_ran fn answer p hx hpc
    obtain ⟨hsound, hle⟩ := hset.sound h
    obtain ⟨x', hset', hlt, hstart', hs', hstopping'⟩ := hselect hsound (hs₁.trans hstop) hx₁ rfl
    exact ⟨x', hset.trans hset', hlt.trans_le hle, hstart'.trans hstart, hs', hstopping'.trans hstopping⟩
  | returned => simp [RunLoop.isReturned, hpc] at hr

/-- All of them can. -/
theorem settles_ended (h : x.2.SoundLoops) (hstop : x.2.stop = true) (hstart : x.2.starting = []) :
    ∃ x', Settles fn answer x x' ∧ x'.2.unreturned = 0 ∧ x'.2.stopping = x.2.stopping := by
  induction hn : x.2.unreturned using Nat.strongRecOn generalizing x with
  | _ n ih =>
    subst hn
    by_cases hzero : x.2.unreturned = 0
    · exact ⟨x, .refl x, hzero, rfl⟩
    · have hpos : 0 < x.2.loops.countP (fun l => !l.isReturned) := by
        simp only [unreturned, hstart, List.length_nil, Nat.add_zero] at hzero
        exact Nat.pos_iff_ne_zero.mpr hzero
      obtain ⟨loop, hmem, hr⟩ := List.countP_pos_iff.mp hpos
      obtain ⟨i, hi⟩ := List.getElem?_of_mem hmem
      obtain ⟨x₁, hset, hlt, hstart₁, hstop₁, hstopping⟩ :=
        settles_returned fn answer h hstop hi (by simpa using hr)
      obtain ⟨x', hset', hend, hstopping'⟩ :=
        ih _ hlt (hset.sound h).1 hstop₁ (hstart₁.trans hstart) rfl
      exact ⟨x', hset.trans hset', hend, hstopping'.trans hstopping⟩

/-- When `stopOnce` is done a call of `Stop` comes to its `wg.Wait`. -/
theorem settles_past (h : x.2.SoundLoops) (hdone : x.2.stopOnce = .done) {c : Nat}
    (hc : x.2.stopping c ≠ .idle) : ∃ x', Settles fn answer x x' ∧ x'.2.stop = true ∧
      (x'.2.stopping c = .waiting ∨ x'.2.stopping c = .returned) := by
  have hstop : x.2.stop = true := h.stop.mpr hdone
  cases hpc : x.2.stopping c with
  | idle => exact absurd hpc hc
  | entering =>
    have hs : x.2.step fn (.once c) = some (x.2.setStopping c .waiting) := by
      simp [Scheduler.step, hpc, hdone]
    exact ⟨_, .of_step hs trivial, hstop, .inl (Function.update_self ..)⟩
  | closing =>
    have hrun := h.closing c hpc
    rw [hdone] at hrun
    cases hrun
  | waiting => exact ⟨x, .refl x, hstop, .inl hpc⟩
  | returned => exact ⟨x, .refl x, hstop, .inr hpc⟩

/-- The call in the section of `stopOnce` leaves it. -/
theorem settles_closed (h : x.2.SoundLoops) {c : Nat} (hcl : x.2.stopping c = .closing) :
    ∃ x', Settles fn answer x x' ∧ x'.2.stopOnce = .done ∧
      ∀ c', x.2.stopping c' ≠ .idle → x'.2.stopping c' ≠ .idle := by
  have hs : x.2.step fn (.close c) =
      some { x.2.closeStop.setStopping c .waiting with stopOnce := .done } := by
    simp [Scheduler.step, hcl]
  refine ⟨_, .of_step hs trivial, rfl, ?_⟩
  intro c' hc'
  have hopen : x.2.closeStop = { x.2 with stop := true } := by simp [closeStop, (h.close hcl).2]
  simp only
  rw [hopen]
  by_cases hcc : c' = c
  · subst hcc
    simp [Scheduler.setStopping]
  · simpa [Scheduler.setStopping, hcc] using hc'

/-- A call of `Stop` that has begun comes to its `wg.Wait`. -/
theorem settles_waiting (h : x.2.SoundLoops) {c : Nat} (hc : x.2.stopping c ≠ .idle) :
    ∃ x', Settles fn answer x x' ∧ x'.2.stop = true ∧
      (x'.2.stopping c = .waiting ∨ x'.2.stopping c = .returned) := by
  have hclosing : ∀ {x : List Label × Scheduler}, x.2.SoundLoops → x.2.stopping c ≠ .idle →
      (∃ c', x.2.stopping c' = .closing) → ∃ x', Settles fn answer x x' ∧ x'.2.stop = true ∧
        (x'.2.stopping c = .waiting ∨ x'.2.stopping c = .returned) := by
    intro x h hc ⟨c', hcl⟩
    obtain ⟨x₁, hset, hdone, hkept⟩ := settles_closed fn answer h hcl
    obtain ⟨x', hset', hend⟩ := settles_past fn answer (hset.sound h).1 hdone (hkept c hc)
    exact ⟨x', hset.trans hset', hend⟩
  cases honce : x.2.stopOnce with
  | done => exact settles_past fn answer h honce hc
  | running => exact hclosing h hc (h.closer honce)
  | idle =>
    have hent : x.2.stopping c = .entering := by
      cases hpc : x.2.stopping c with
      | idle => exact absurd hpc hc
      | entering => rfl
      | closing => simp [h.closing c hpc] at honce
      | waiting => simp [h.past c (.inl hpc)] at honce
      | returned => simp [h.past c (.inr hpc)] at honce
    have hs : x.2.step fn (.once c) =
        some { x.2.setStopping c .closing with stopOnce := .running } := by
      simp [Scheduler.step, hent, honce]
    have hcl : Function.update x.2.stopping c StopPc.closing c = .closing := Function.update_self ..
    obtain ⟨x', hset', hend⟩ := hclosing
      (x := (x.1 ++ [.once c], { x.2.setStopping c .closing with stopOnce := .running }))
      (h.enter honce c) (by simp [Scheduler.setStopping]) ⟨c, hcl⟩
    exact ⟨x', (Settles.of_step hs trivial).trans hset', hend⟩

/-- **No call of `Stop` is stuck.** Once it has begun it can return without another tick, whatever
the backend answers the loops that are still at work. -/
theorem stop_can_return {ls : List Label} (hr : Scheduler.Runs fn ls s) {c : Nat}
    (hc : s.stopping c ≠ .idle) :
    ∃ ls' s', Settles fn answer (ls, s) (ls', s') ∧ s'.stopping c = .returned := by
  have h : s.SoundLoops := hr.keeps sound_new fun _ _ _ h hs => (h.step hs).1
  obtain ⟨x₁, hset₁, hstop₁, hpc⟩ := settles_waiting fn answer (x := (ls, s)) h hc
  obtain hw | hret := hpc
  case inr => exact ⟨x₁.1, x₁.2, hset₁, hret⟩
  obtain ⟨x₂, hset₂, hnone, hstop₂, hsame₂⟩ := settles_started fn answer x₁
  obtain ⟨x₃, hset₃, hzero, hsame₃⟩ :=
    settles_ended fn answer (hset₂.sound (hset₁.sound h).1).1
      (hstop₂.trans hstop₁) hnone
  have hsettled := (hset₁.trans hset₂).trans hset₃
  have hw₃ : x₃.2.stopping c = .waiting := by rw [hsame₃, hsame₂, hw]
  have hs : x₃.2.step fn (.wait c) = some (x₃.2.setStopping c .returned) := by
    simp [Scheduler.step, hw₃, (hsettled.sound h).1.counted, hzero]
  exact ⟨_, _, hsettled.trans (.of_step hs trivial), Function.update_self ..⟩

end

/-! ## One server that shuts down -/

/-- Every request times out. -/
def timedOut : (c : Call) → Answer c
  | .dynamo _ => .error (.other "context deadline exceeded")
  | .sqs _ => .error (.other "context deadline exceeded")
  | .proc .now => 0
  | .proc .newUUIDv7 => ""
  | .proc (.lookupURL _) => none
  | .proc (.cacheURL _ _) => ()
  | .proc (.goEnsureDLQ _ _) => ()
  | .proc (.rangeMap _) => []

/-- A promoter is at work when two calls of `Stop` begin; one of them closes the
channel and the other comes later. -/
def stoppedAtWork : List Label :=
  [.start, .go, .go, .tick 0, .takeTick 0, .call 0 timedOut, .stop 0, .stop 1, .once 1, .go, .close 1,
    .once 0, .tick 1, .takeStop 2, .takeStop 1, .call 0 timedOut, .ran 0, .takeStop 0, .wait 0]

theorem stop_ends_loops_at_work : ∃ s, Stopped stoppedAtWork s ∧ s.stopping 0 = .returned ∧
    s.logged.map Prod.fst = ["scheduled-promoter"] := by
  have hrun : ∃ s, stoppedAtWork.foldlM (step (backendFn demo demoLib "UTC")) {} = some s ∧
      s.stopping 0 = .returned ∧
      s.logged.map Prod.fst = ["scheduled-promoter"] :=
    ⟨_, rfl, rfl, rfl⟩
  obtain ⟨s, hs, hend⟩ := hrun
  have hfirst : StartsFirst stoppedAtWork := by
    intro before c after h hmem
    have htail : Label.start ∈ stoppedAtWork.tail := by
      rw [h]
      cases before with
      | nil => cases h
      | cons l before => simp [hmem]
    simp [stoppedAtWork] at htail
  exact ⟨s, stop_ends_loops (Path.of_foldlM hs) hfirst, hend⟩

/-- The other call can return too. -/
theorem stop_can_return_at_work : ∃ (s s' : Scheduler) (ls : List Label), s.stopping 1 = .waiting ∧
    Settles (backendFn demo demoLib "UTC") (fun _ => timedOut) (stoppedAtWork, s) (ls, s') ∧
    s'.stopping 1 = .returned := by
  have hrun : ∃ s, stoppedAtWork.foldlM (step (backendFn demo demoLib "UTC")) {} = some s ∧
      s.stopping 1 = .waiting := ⟨_, rfl, rfl⟩
  obtain ⟨s, hs, hw⟩ := hrun
  have hbegun : s.stopping 1 ≠ .idle := by simp [hw]
  obtain ⟨ls, s', hset, hret⟩ := stop_can_return _ (fun _ => timedOut) (Path.of_foldlM hs) hbegun
  exact ⟨s, s', ls, hw, hset, hret⟩

end Scheduler
end OjsSqs
