import OjsSqs.Calls.Prog
import Mathlib.Logic.Relation

/-! # What runs beside a program

A program that makes the calls of one interface also runs where there is a
second one, and leaves the state of the second one alone. And a program may
start others, which go on in the background between its calls: what they do is
no matter where it changes nothing that the program's calls look at. -/

namespace Calls

/-! ## Two interfaces -/

variable {W V C D : Type} {R : C → Type} {S : D → Type} {α β : Type}

/-- What a call of either interface answers. -/
abbrev Beside (R : C → Type) (S : D → Type) : C ⊕ D → Type := Sum.elim R S

/-- A program of the first interface. -/
def Prog.inl : Prog C R α → Prog (C ⊕ D) (Beside R S) α
  | .pure a => .pure a
  | .call c k => .call (.inl c) fun r => (k r).inl

/-- One call of the second interface. -/
def Prog.inr (d : D) : Prog (C ⊕ D) (Beside R S) (S d) := .call (.inr d) .pure

/-- Each call is answered by the environment of its interface. -/
def Env.beside (E : Env W C R) (F : Env V D S) : Env (W × V) (C ⊕ D) (Beside R S)
  | .inl c, w, r, w' => E c w.1 r w'.1 ∧ w'.2 = w.2
  | .inr d, w, r, w' => F d w.2 r w'.2 ∧ w'.1 = w.1

section
variable {E : Env W C R} {F : Env V D S}

/-- **Framing.** A program of the first interface means what it meant alone. -/
theorem wp_inl (p : Prog C R α) (Q : α → W × V → Prop) (w : W × V) :
    wp (E.beside F).every (p.inl : Prog (C ⊕ D) (Beside R S) α) Q w =
      wp E.every p (fun a w' => Q a (w', w.2)) w.1 := by
  induction p generalizing w with
  | pure a => rfl
  | call c k ih =>
    apply propext
    constructor
    · intro h r w' he
      rw [← ih r (w', w.2)]
      exact h r (w', w.2) ⟨he, rfl⟩
    · rintro h r ⟨w', v'⟩ ⟨he, hv⟩
      cases hv
      rw [ih r (w', w.2)]
      exact h r w' he

theorem wp_inr (d : D) (Q : S d → W × V → Prop) (w : W × V) :
    wp (E.beside F).every (.inr d) Q w = F.every d (fun r v => Q r (w.1, v)) w.2 := by
  apply propext
  constructor
  · exact fun h r v he => h r (w.1, v) ⟨he, rfl⟩
  · rintro h r ⟨w', v⟩ ⟨he, hw⟩
    cases hw
    exact h r v he

end

theorem Prog.only_inl {P : C ⊕ D → Prop} {p : Prog C R α} :
    (p.inl : Prog (C ⊕ D) (Beside R S) α).Only P ↔ p.Only fun c => P (.inl c) := by
  induction p with
  | pure a => exact Iff.rfl
  | call c k ih => exact and_congr_right fun _ => forall_congr' ih

/-! ## Programs in the background -/

/-- One of the programs in the background makes its next call. -/
inductive BackStep (F : Env W C R) :
    W × List (Prog C R Unit) → W × List (Prog C R Unit) → Prop
  | call {w w' : W} {gs : List (Prog C R Unit)} {i : Nat} {c : C} {k : R c → Prog C R Unit} {r : R c} :
      gs[i]? = some (.call c k) → F c w r w' → BackStep F (w, gs) (w', gs.set i (k r))

/-- The environment of a program whose calls start others: before each of its
calls those in the background may go on. -/
def Env.spawning (E F : Env W C R) (spawn : C → List (Prog C R Unit)) :
    Env (W × List (Prog C R Unit)) C R :=
  fun c x r x' => ∃ y, Relation.ReflTransGen (BackStep F) x y ∧ E c y.1 r x'.1 ∧
    x'.2 = y.2 ++ spawn c

/-- Something that is no matter may happen before a call. -/
def Env.after (E : Env W C R) (S : W → W → Prop) : Env W C R :=
  fun c w r w' => ∃ w₁, S w w₁ ∧ E c w₁ r w'

section
variable {E F : Env W C R} {spawn : C → List (Prog C R Unit)} {S : W → W → Prop} {P : C → Prop}
  {p : Prog C R α} {Q : α → W → Prop} {w w' : W} {gs : List (Prog C R Unit)}

/-- The others may wait for ever. -/
theorem wp_of_spawning (h : wp (E.spawning F spawn).every p (fun a x => Q a x.1) (w, gs)) :
    wp E.every p Q w := by
  induction p generalizing w gs with
  | pure a => exact h
  | call c k ih => exact fun r w' he => ih r (h r (w', gs ++ spawn c) ⟨(w, gs), .refl, he, rfl⟩)

/-- What the others do, each of whose calls is no matter. -/
theorem backSteps_silent (hrefl : ∀ w, S w w) (htrans : ∀ {w w₁ w₂}, S w w₁ → S w₁ w₂ → S w w₂)
    (hF : ∀ {c w r w'}, P c → F c w r w' → S w w') {x y : W × List (Prog C R Unit)}
    (hs : Relation.ReflTransGen (BackStep F) x y) (hx : ∀ g ∈ x.2, g.Only P) :
    S x.1 y.1 ∧ ∀ g ∈ y.2, g.Only P := by
  induction hs with
  | refl => exact ⟨hrefl _, hx⟩
  | tail _ hstep ih =>
    obtain ⟨hS, hgs⟩ := ih
    cases hstep with
    | @call w w' gs i c k r hi he =>
      have hcall : (Prog.call c k).Only P := hgs _ (List.mem_of_getElem? hi)
      refine ⟨htrans hS (hF hcall.1 he), fun g hg => ?_⟩
      rcases List.mem_or_eq_of_mem_set hg with hg | rfl
      · exact hgs g hg
      · exact hcall.2 r

theorem wp_spawning (hrefl : ∀ w, S w w) (htrans : ∀ {w w₁ w₂}, S w w₁ → S w₁ w₂ → S w w₂)
    (hF : ∀ {c w r w'}, P c → F c w r w' → S w w') (hspawn : ∀ c, ∀ g ∈ spawn c, g.Only P)
    (hgs : ∀ g ∈ gs, g.Only P) (h : wp (E.after S).every p Q w) :
    wp (E.spawning F spawn).every p (fun a x => Q a x.1) (w, gs) := by
  induction p generalizing w gs with
  | pure a => exact h
  | call c k ih =>
    rintro r ⟨w', gs'⟩ ⟨y, hs, he, rfl⟩
    obtain ⟨hS, hy⟩ := backSteps_silent hrefl htrans hF hs hgs
    refine ih r (fun g hg => ?_) (h r w' ⟨y.1, hS, he⟩)
    rcases List.mem_append.mp hg with hg | hg
    · exact hy g hg
    · exact hspawn c g hg

/-- Where nothing happens the environment is the same. -/
theorem wp_of_after (hrefl : ∀ w, S w w) (h : wp (E.after S).every p Q w) : wp E.every p Q w :=
  wp_of_every (fun _ w _ _ he => ⟨w, hrefl w, he⟩) h

/-- What may happen before a program is no matter to it. -/
theorem wp_after_silent (htrans : ∀ {w w₁ w₂}, S w w₁ → S w₁ w₂ → S w w₂)
    (hQ : ∀ {a w w'}, S w w' → Q a w → Q a w') (hS : S w w') (h : wp (E.after S).every p Q w) :
    wp (E.after S).every p Q w' := by
  cases p with
  | pure a => exact hQ hS h
  | call c k => exact fun r w₂ ⟨w₁, hS₁, he⟩ => h r w₂ ⟨w₁, htrans hS hS₁, he⟩

/-- **Silence.** A stretch of a program whose calls do the same afterwards. -/
theorem wp_after_only (hrefl : ∀ w, S w w) (htrans : ∀ {w w₁ w₂}, S w w₁ → S w₁ w₂ → S w w₂)
    (hp : p.Only P)
    (hE : ∀ {c w w₁ r w'}, P c → S w w₁ → E c w₁ r w' → ∃ w₂, E c w r w₂ ∧ S w₂ w')
    (hQ : ∀ {a w w'}, S w w' → Q a w → Q a w') (h : wp E.every p Q w) :
    wp (E.after S).every p Q w := by
  suffices hall : ∀ w', S w w' → wp (E.after S).every p Q w' from hall w (hrefl w)
  induction p generalizing w with
  | pure a => exact fun w' hS => hQ hS h
  | call c k ih =>
    obtain ⟨hc, hk⟩ := hp
    rintro w' hS r w₂ ⟨w₁, hS₁, he⟩
    obtain ⟨w₃, he, hS₂⟩ := hE hc (htrans hS hS₁) he
    exact ih r (hk r) (h r w₃ he) w₂ hS₂

end

end Calls
