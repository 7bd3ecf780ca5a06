import Mathlib.Data.List.Basic
import Mathlib.Data.List.Induction

/-! # Runs of labelled steps

A system moves by labelled steps, and a run is known by the labels of its
steps: what has happened so far is a function of the list. Nothing here says
what a state or a label is. -/

namespace Calls

variable {W L : Type}

/-- The steps `ls` lead, one after the other, from `w` to `w'`. -/
inductive Path (step : W → L → W → Prop) (w : W) : List L → W → Prop
  | nil : Path step w [] w
  | snoc {ls : List L} {l : L} {w' w'' : W} :
      Path step w ls w' → step w' l w'' → Path step w (ls ++ [l]) w''

/-- The steps whose label is right for the state they are taken in. -/
def Meeting (ok : W → L → Prop) (step : W → L → W → Prop) : W → L → W → Prop :=
  fun w l w' => ok w l ∧ step w l w'

namespace Path

variable {step step' : W → L → W → Prop} {w w' w'' : W} {ls ls' : List L}

theorem single {l : L} (h : step w l w') : Path step w [l] w' := snoc nil h

theorem append (h : Path step w ls w') (h' : Path step w' ls' w'') :
    Path step w (ls ++ ls') w'' := by
  induction h' with
  | nil =>
    rw [List.append_nil]
    exact h
  | snoc _ hs ih =>
    rw [← List.append_assoc]
    exact ih.snoc hs

theorem mono (h : Path step w ls w') (hstep : ∀ w l w', step w l w' → step' w l w') :
    Path step' w ls w' := by
  induction h with
  | nil => exact .nil
  | snoc _ hs ih => exact ih.snoc (hstep _ _ _ hs)

/-- The steps that a function gives. -/
theorem of_foldlM {next : W → L → Option W} {ls : List L} {w w' : W}
    (h : ls.foldlM next w = some w') : Path (fun w l w' => next w l = some w') w ls w' := by
  induction ls using List.reverseRecOn generalizing w' with
  | nil =>
    cases h
    exact .nil
  | append_singleton ls l ih =>
    rw [List.foldlM_append] at h
    obtain ⟨w₁, hw, hl⟩ := Option.bind_eq_some_iff.mp h
    exact (ih hw).snoc (by simpa using hl)

/-- What holds at the start of a run and is kept by every step, whatever has
happened before it, holds at the end. -/
theorem invariant {I : List L → W → Prop} (h : Path step w ls w') (h0 : I [] w)
    (hstep : ∀ ls w l w', I ls w → step w l w' → I (ls ++ [l]) w') : I ls w' := by
  induction h with
  | nil => exact h0
  | snoc _ hs ih => exact hstep _ _ _ _ ih hs

/-- The same for what does not look back. -/
theorem keeps {I : W → Prop} (h : Path step w ls w') (h0 : I w)
    (hstep : ∀ w l w', I w → step w l w' → I w') : I w' :=
  h.invariant (I := fun _ => I) h0 fun _ _ _ _ => hstep _ _ _

end Path

/-! ## What has happened -/

/-- A step was taken whose label, after the labels before it, is as `Q` says. -/
def Happened (Q : List L → L → Prop) (ls : List L) : Prop :=
  ∃ before l after, ls = before ++ l :: after ∧ Q before l

section
variable {Q : List L → L → Prop} {ls : List L} {l : L}

theorem not_happened_nil : ¬ Happened Q [] := by
  rintro ⟨before, l, after, h, -⟩
  exact List.append_ne_nil_of_right_ne_nil before (List.cons_ne_nil l after) h.symm

theorem happened_snoc : Happened Q (ls ++ [l]) ↔ Happened Q ls ∨ Q ls l := by
  constructor
  · rintro ⟨before, x, after, h, hQ⟩
    obtain rfl | ⟨after, y, rfl⟩ := List.eq_nil_or_concat' after
    · obtain ⟨rfl, hl⟩ := List.append_inj' h rfl
      cases hl
      exact .inr hQ
    · rw [← List.cons_append, ← List.append_assoc] at h
      exact .inl ⟨before, x, after, (List.append_inj' h rfl).1, hQ⟩
  · rintro (⟨before, x, after, rfl, hQ⟩ | hQ)
    · exact ⟨before, x, after ++ [l], by simp, hQ⟩
    · exact ⟨ls, l, [], rfl, hQ⟩

theorem Happened.snoc (h : Happened Q ls) (l : L) : Happened Q (ls ++ [l]) :=
  happened_snoc.mpr (.inl h)

end

/-! ## Notes of a run

The labels of a run do not say in which states its steps were taken. A run can
be followed by notes: each step adds what the state before it and its label
give. The notes decide nothing. -/

section
variable {W L E : Type}

/-- The steps, with the notes taken so far beside the state. -/
def Noting (note : W → L → List E) (step : W → L → W → Prop) : W × List E → L → W × List E → Prop :=
  fun x l x' => step x.1 l x'.1 ∧ x'.2 = x.2 ++ note x.1 l

namespace Path

variable {note : W → L → List E} {step : W → L → W → Prop} {w w' : W} {ls : List L}

/-- Any run can be followed. -/
theorem noted (h : Path step w ls w') (es : List E) :
    ∃ es', Path (Noting note step) (w, es) ls (w', es') := by
  induction h with
  | nil => exact ⟨es, .nil⟩
  | @snoc _ l w₁ _ _ hs ih =>
    obtain ⟨es₁, h₁⟩ := ih
    exact ⟨es₁ ++ note w₁ l, h₁.snoc ⟨hs, rfl⟩⟩

/-- Without the notes it is the same run. -/
theorem unnoted {x x' : W × List E} (h : Path (Noting note step) x ls x') :
    Path step x.1 ls x'.1 := by
  induction h with
  | nil => exact .nil
  | snoc _ hs ih => exact ih.snoc hs.1

end Path

end

end Calls
