import OjsSqs.Calls.Prog
import Mathlib.Logic.Function.Basic
import Mathlib.Data.Fintype.Card

/-! # Programs running next to each other

A pool is a shared state and one program for each thread. A step makes the
next call of some thread; a run is any order of steps, with the list of the
calls made and their answers. A monitor is a small automaton that follows the
calls of one program. A program conforms to it when every path of the program
stays inside what the automaton allows. In a pool of conforming programs an
invariant of the state and the automata only has to survive the calls the
automata allow: no program text is left in the argument. -/

namespace Calls

/-- One call of one thread and the answer it got. -/
structure Event (ι C : Type) (R : C → Type) where
  thread : ι
  call : C
  answer : R call

structure Pool (ι W C : Type) (R : C → Type) (α : Type) where
  world : W
  thread : ι → Prog C R α

variable {ι W C σ K : Type} {R : C → Type} {α : Type} [DecidableEq ι]

namespace Pool

/-- The next call of thread `i` is made and answered. -/
inductive Step (E : Env W C R) : Pool ι W C R α → Event ι C R → Pool ι W C R α → Prop
  | call {P : Pool ι W C R α} {i : ι} {c : C} {k : R c → Prog C R α} {r : R c} {w' : W} :
      P.thread i = .call c k → E c P.world r w' →
      Step E P ⟨i, c, r⟩ ⟨w', Function.update P.thread i (k r)⟩

/-- A run from `P`, its events in order. Each step meets `ok`, a condition on
the events so far, the state before the step and the step's event. -/
inductive Run (E : Env W C R) (ok : List (Event ι C R) → W → Event ι C R → Prop)
    (P : Pool ι W C R α) : List (Event ι C R) → Pool ι W C R α → Prop
  | start : Run E ok P [] P
  | step {tr : List (Event ι C R)} {P' P'' : Pool ι W C R α} {e : Event ι C R} :
      Run E ok P tr P' → ok tr P'.world e → Step E P' e P'' → Run E ok P (tr ++ [e]) P''

/-- No condition on the steps. -/
def anyStep : List (Event ι C R) → W → Event ι C R → Prop := fun _ _ _ => True

instance (tr : List (Event ι C R)) (w : W) (e : Event ι C R) : Decidable (anyStep tr w e) :=
  .isTrue trivial

/-- Every thread has returned. -/
def Finished (P : Pool ι W C R α) : Prop := ∀ i, ∃ a, P.thread i = .pure a

/-- Thread `i` has returned `a`. -/
def Returned (P : Pool ι W C R α) (i : ι) (a : α) : Prop := P.thread i = .pure a

end Pool

/-! ## Monitors -/

/-- An automaton that follows the calls of a program: the calls it allows in
a state, the state after an answer, and the results it accepts. -/
structure Monitor (σ C : Type) (R : C → Type) (α : Type) where
  allow : σ → C → Prop
  next : σ → (c : C) → R c → σ
  accept : α → σ → Prop

namespace Monitor

/-- The monitor as the meaning of a call: allowed, and then any answer. -/
def effect (m : Monitor σ C R α) : Effect σ C R :=
  fun c Q s => m.allow s c ∧ ∀ r, Q r (m.next s c r)

theorem effect_mono (m : Monitor σ C R α) : m.effect.Mono :=
  fun _ _ _ _ h hQ => ⟨hQ.1, fun r => h _ _ (hQ.2 r)⟩

/-- Every path of `p` from the state `s` stays inside the monitor. -/
def Conforms (m : Monitor σ C R α) (p : Prog C R α) (s : σ) : Prop := wp m.effect p m.accept s

/-- A stretch of a program that conforms to a smaller monitor conforms to one
that does the same in the states `f` gives. -/
theorem wp_embed {τ β γ : Type} {m : Monitor σ C R α} {m₀ : Monitor τ C R γ} (f : τ → σ)
    (hf : ∀ x c, m₀.allow x c → m.allow (f x) c ∧ ∀ r, m.next (f x) c r = f (m₀.next x c r))
    {p : Prog C R β} {x : τ} {Q₀ : β → τ → Prop} {Q : β → σ → Prop} (h : wp m₀.effect p Q₀ x)
    (hQ : ∀ a y, Q₀ a y → Q a (f y)) : wp m.effect p Q (f x) := by
  induction p generalizing x with
  | pure a => exact hQ a x h
  | call c k ih =>
    obtain ⟨hc, hk⟩ := h
    obtain ⟨ha, hn⟩ := hf x c hc
    refine ⟨ha, fun r => ?_⟩
    rw [hn r]
    exact ih r (hk r)

/-- A stretch of a program whose calls are allowed and leave the state as it
is. -/
theorem wp_only {β : Type} {m : Monitor σ C R α} {P : C → Prop} {p : Prog C R β} {s : σ}
    {Q : β → σ → Prop} (hp : p.Only P) (hs : ∀ c, P c → m.allow s c ∧ ∀ r, m.next s c r = s)
    (hQ : ∀ a, Q a s) : wp m.effect p Q s := by
  induction p with
  | pure a => exact hQ a
  | call c k ih =>
    obtain ⟨hc, hk⟩ := hp
    obtain ⟨ha, hn⟩ := hs c hc
    refine ⟨ha, fun r => ?_⟩
    rw [hn r]
    exact ih r (hk r)

/-- What survives every call a monitor allows survives a program that conforms
to it. -/
theorem wp_invariant {β : Type} {m : Monitor σ C R α} {E : Env W C R} (I : σ → W → Prop)
    (hstep : ∀ s w c r w', m.allow s c → I s w → E c w r w' → I (m.next s c r) w')
    {p : Prog C R β} {Q : β → σ → Prop} {s : σ} {w : W} (hp : wp m.effect p Q s) (h : I s w) :
    wp E.every p (fun a w' => ∃ s', I s' w' ∧ Q a s') w := by
  induction p generalizing s w with
  | pure a => exact ⟨s, h, hp⟩
  | call c k ih =>
    obtain ⟨ha, hk⟩ := hp
    exact fun r w' he => ih r (hk r) (hstep s w c r w' ha h he)

/-- Only calls that a monitor allows are made. -/
theorem only_of_wp {β : Type} {m : Monitor σ C R α} {P : C → Prop}
    (hP : ∀ s c, m.allow s c → P c) {p : Prog C R β} {Q : β → σ → Prop} {s : σ}
    (h : wp m.effect p Q s) : p.Only P := by
  induction p generalizing s with
  | pure a => trivial
  | call c k ih =>
    obtain ⟨ha, hk⟩ := h
    exact ⟨hP s c ha, fun r => ih r (hk r)⟩

theorem conforms_pure {m : Monitor σ C R α} {a : α} {s : σ} (h : m.Conforms (.pure a) s) :
    m.accept a s := h

theorem conforms_call {m : Monitor σ C R α} {c : C} {k : R c → Prog C R α} {s : σ}
    (h : m.Conforms (.call c k) s) :
    m.allow s c ∧ ∀ r, m.Conforms (k r) (m.next s c r) := h

/-- The states of the monitors after an event. -/
def track (m : ι → Monitor σ C R α) (s : ι → σ) (e : Event ι C R) : ι → σ :=
  Function.update s e.thread ((m e.thread).next (s e.thread) e.call e.answer)

/-- The states of the monitors after a list of events. -/
def states (m : ι → Monitor σ C R α) (s : ι → σ) (tr : List (Event ι C R)) : ι → σ :=
  tr.foldl (track m) s

@[simp] theorem states_nil (m : ι → Monitor σ C R α) (s : ι → σ) : states m s [] = s := rfl

@[simp] theorem states_append (m : ι → Monitor σ C R α) (s : ι → σ) (tr : List (Event ι C R))
    (e : Event ι C R) : states m s (tr ++ [e]) = track m (states m s tr) e := by
  simp [states]

end Monitor

namespace Pool
open Monitor

/-- One step of a pool of conforming programs is a call some monitor allows,
and leaves a pool of conforming programs. -/
theorem Step.conforms {E : Env W C R} {m : ι → Monitor σ C R α} {s : ι → σ}
    {P P' : Pool ι W C R α} {e : Event ι C R} (h : Step E P e P')
    (hs : ∀ i, (m i).Conforms (P.thread i) (s i)) :
    (m e.thread).allow (s e.thread) e.call ∧ E e.call P.world e.answer P'.world ∧
      ∀ i, (m i).Conforms (P'.thread i) (track m s e i) := by
  cases h with
  | @call i c k r w' hc he =>
    have hi := hs i
    rw [hc] at hi
    obtain ⟨ha, hk⟩ := conforms_call hi
    refine ⟨ha, he, fun j => ?_⟩
    by_cases hj : j = i
    · subst hj; simpa [track] using hk r
    · simpa [track, hj] using hs j

/-- **The invariant rule of a pool.** What holds at the start and survives
every call the monitors allow holds after every run. -/
theorem Run.invariant {E : Env W C R} {ok : List (Event ι C R) → W → Event ι C R → Prop}
    {m : ι → Monitor σ C R α} {s : ι → σ} {P P' : Pool ι W C R α} {tr : List (Event ι C R)}
    (I : List (Event ι C R) → W → (ι → σ) → Prop)
    (hr : Run E ok P tr P') (hs : ∀ i, (m i).Conforms (P.thread i) (s i)) (h0 : I [] P.world s)
    (hstep : ∀ tr w t i c r w', I tr w t → (m i).allow (t i) c → E c w r w' →
      ok tr w ⟨i, c, r⟩ → I (tr ++ [⟨i, c, r⟩]) w' (track m t ⟨i, c, r⟩)) :
    I tr P'.world (states m s tr) ∧ ∀ i, (m i).Conforms (P'.thread i) (states m s tr i) := by
  induction hr with
  | start => exact ⟨h0, hs⟩
  | @step tr P' P'' e _ hok hst ih =>
    obtain ⟨hI, hc⟩ := ih
    obtain ⟨ha, he, hc'⟩ := hst.conforms hc
    rw [states_append]
    exact ⟨hstep _ _ _ _ _ _ _ hI ha he hok, hc'⟩

omit [DecidableEq ι] in
/-- What a thread of a finished pool returned is accepted by its monitor. -/
theorem accepted {m : Monitor σ C R α} {P : Pool ι W C R α} {i : ι} {a : α} {s : σ}
    (h : m.Conforms (P.thread i) s) (hret : P.Returned i a) : m.accept a s := by
  rw [Returned] at hret
  rw [hret] at h
  exact conforms_pure h

/-! ## Scripts of a pool -/

section
variable (act : K → (c : C) → W → Option (R c × W))
  (ok : List (Event ι C R) → W → Event ι C R → Prop) [∀ tr w e, Decidable (ok tr w e)]

/-- Run a pool on a script of threads and choices, as long as each step meets
the condition. The events so far come first. -/
def script : List (Event ι C R) → List (ι × K) → Pool ι W C R α →
    Option (List (Event ι C R) × Pool ι W C R α)
  | before, [], P => some (before, P)
  | before, (i, ch) :: rest, P => match P.thread i with
    | .pure _ => none
    | .call c k => match act ch c P.world with
      | none => none
      | some (r, w') =>
        if ok before P.world ⟨i, c, r⟩ then
          script (before ++ [⟨i, c, r⟩]) rest ⟨w', Function.update P.thread i (k r)⟩
        else none

variable {act ok}

theorem script_run (rest : List (ι × K)) {P₀ P P' : Pool ι W C R α}
    {before tr : List (Event ι C R)} (hr : Run (Env.ofAct act) ok P₀ before P)
    (h : script act ok before rest P = some (tr, P')) : Run (Env.ofAct act) ok P₀ tr P' := by
  induction rest generalizing before P with
  | nil =>
    simp only [script, Option.some.injEq, Prod.mk.injEq] at h
    obtain ⟨rfl, rfl⟩ := h
    exact hr
  | cons x rest ih =>
    obtain ⟨i, ch⟩ := x
    simp only [script] at h
    split at h
    · cases h
    · rename_i c k hc
      split at h
      · cases h
      · rename_i r w' he
        obtain ⟨hok, h⟩ := Option.ite_none_right_eq_some.mp h
        exact ih (.step hr hok (.call hc ⟨ch, he⟩)) h

end

end Pool

/-! ## Counting threads

How many threads of a finite pool are in a state of some kind, and what the
step of one thread does to that number. -/

section
variable {ι σ : Type} [Fintype ι]

/-- The number of threads `i` with `p i` of their state. -/
def tally (p : ι → σ → Bool) (t : ι → σ) : Nat := (Finset.univ.filter fun i => p i (t i)).card

variable {p q : ι → σ → Bool} {t : ι → σ} {i : ι} {s : σ}

variable [DecidableEq ι] in
/-- A step that enters the kind counts one more. -/
theorem tally_enter (h : p i (t i) = false) (hs : p i s = true) :
    tally p (Function.update t i s) = tally p t + 1 := by
  have hset : (Finset.univ.filter fun j => p j (Function.update t i s j)) =
      insert i (Finset.univ.filter fun j => p j (t j)) := by
    ext j
    by_cases hj : j = i
    · subst hj
      simp [hs]
    · simp [hj]
  rw [tally, hset, Finset.card_insert_of_notMem (by simp [h]), tally]

variable [DecidableEq ι] in
/-- A step that neither enters nor leaves the kind counts the same. -/
theorem tally_same (h : p i s = p i (t i)) : tally p (Function.update t i s) = tally p t := by
  rw [tally, tally]
  congr 1
  ext j
  by_cases hj : j = i
  · subst hj
    simp [h]
  · simp [hj]

theorem tally_le (p : ι → σ → Bool) (t : ι → σ) : tally p t ≤ Fintype.card ι :=
  Finset.card_filter_le _ _

theorem tally_eq_zero (h : ∀ i, p i (t i) = false) : tally p t = 0 := by
  rw [tally, Finset.card_eq_zero, Finset.filter_eq_empty_iff]
  simp [h]

theorem tally_eq_card : tally p t = Fintype.card ι ↔ ∀ i, p i (t i) = true := by
  rw [tally, ← Finset.card_univ, Finset.card_filter_eq_iff]
  simp

/-- The threads of a kind are of one of two kinds. -/
theorem tally_split (p q : ι → σ → Bool) (t : ι → σ) :
    tally (fun i s => p i s && q i s) t + tally (fun i s => p i s && !q i s) t = tally p t := by
  simp only [tally, Bool.and_eq_true, Bool.not_eq_true', ← Finset.filter_filter]
  have h := Finset.card_filter_add_card_filter_not (s := Finset.univ.filter fun i => p i (t i))
    (fun i => q i (t i) = true)
  simpa using h

end

end Calls
