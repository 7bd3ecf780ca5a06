import OjsSqs.Calls.Prog
import OjsSqs.Calls.Path

/-! # What is possible

The weakest precondition of a program in `Env.every` speaks about all of its runs,
and holds of a program that has none. In `Env.may` the environment helps: each
call gets some answer, and a run exists that ends as it should. `Possible` says
the same of a system that moves by labelled steps: some run of at most so many
steps ends as it should. -/

namespace Calls

section
variable {W C : Type} {R : C → Type} {α : Type} {E : Env W C R} {p : Prog C R α}
  {Q : α → W → Prop} {w w' : W} {a : α}

/-- Some answer that the environment allows is right. -/
def Env.may (E : Env W C R) : Effect W C R := fun c Q w => ∃ r w', E c w r w' ∧ Q r w'

theorem Env.may_mono (E : Env W C R) : E.may.Mono :=
  fun _ _ _ _ hQ ⟨r, w', he, h⟩ => ⟨r, w', he, hQ r w' h⟩

/-- It speaks about one run. -/
theorem wp_may_iff_runs (E : Env W C R) (p : Prog C R α) (Q : α → W → Prop) (w : W) :
    wp E.may p Q w ↔ ∃ a w', Runs E p w a w' ∧ Q a w' := by
  induction p generalizing w with
  | pure a =>
    constructor
    · intro h
      exact ⟨a, w, .pure, h⟩
    · rintro ⟨a', w', hr, hQ⟩
      cases hr
      exact hQ
  | call c k ih =>
    constructor
    · rintro ⟨r, w', he, h⟩
      obtain ⟨a, w'', hr, hQ⟩ := (ih r w').mp h
      exact ⟨a, w'', .call he hr, hQ⟩
    · rintro ⟨a, w'', hr, hQ⟩
      cases hr with
      | call he hk => exact ⟨_, _, he, (ih _ _).mpr ⟨a, w'', hk, hQ⟩⟩

/-- A program whose runs are known to end in one way has such a run: no run at
all would end in any way. -/
theorem wp_may_of_eq (h : ∀ Q : α → W → Prop, wp E.every p Q w = Q a w') (hQ : Q a w') :
    wp E.may p Q w := by
  have hall : wp E.every p (Runs E p w) w := (wp_iff_runs E p _ w).mpr fun _ _ hr => hr
  rw [h] at hall
  exact (wp_may_iff_runs E p Q w).mpr ⟨a, w', hall, hQ⟩

/-- Where every call is answered, what holds after every run holds after one. -/
theorem wp_may_of_every (hE : ∀ c w, ∃ r w', E c w r w') (h : wp E.every p Q w) :
    wp E.may p Q w := by
  obtain ⟨a, w', hr⟩ := exists_runs hE p w
  exact (wp_may_iff_runs E p Q w).mpr ⟨a, w', hr, wp_runs h hr⟩

end

/-! ## Steps -/

section
variable {W L : Type} {step : W → L → W → Prop} {P Q : W → Prop} {w : W} {m n : Nat}

/-- At most `n` steps lead to a state in which `Q` holds. -/
def Possible (step : W → L → W → Prop) (n : Nat) (w : W) (Q : W → Prop) : Prop :=
  ∃ ls w', ls.length ≤ n ∧ Path step w ls w' ∧ Q w'

namespace Possible

theorem now (h : Q w) : Possible step n w Q := ⟨[], w, Nat.zero_le n, .nil, h⟩

theorem single {l : L} {w' : W} (hs : step w l w') (h : Q w') : Possible step 1 w Q :=
  ⟨[l], w', Nat.le_refl 1, .single hs, h⟩

theorem mono (h : Possible step m w P) (hmn : m ≤ n) (hQ : ∀ w', P w' → Q w') :
    Possible step n w Q := by
  obtain ⟨ls, w', hlen, hp, hw'⟩ := h
  exact ⟨ls, w', Nat.le_trans hlen hmn, hp, hQ w' hw'⟩

/-- One thing after the other. -/
theorem andThen (h : Possible step m w P) (hQ : ∀ w', P w' → Possible step n w' Q) :
    Possible step (m + n) w Q := by
  obtain ⟨ls, w₁, hlen, hp, h₁⟩ := h
  obtain ⟨ls', w₂, hlen', hp', h₂⟩ := hQ w₁ h₁
  refine ⟨ls ++ ls', w₂, ?_, hp.append hp', h₂⟩
  rw [List.length_append]
  exact Nat.add_le_add hlen hlen'

/-- What every step keeps holds there too. -/
theorem keeps {I : W → Prop} (h : Possible step n w Q) (h₀ : I w)
    (hstep : ∀ w l w', I w → step w l w' → I w') : Possible step n w fun w' => I w' ∧ Q w' := by
  obtain ⟨ls, w', hlen, hp, hw'⟩ := h
  exact ⟨ls, w', hlen, hp, hp.keeps h₀ hstep, hw'⟩

end Possible
end
end Calls
