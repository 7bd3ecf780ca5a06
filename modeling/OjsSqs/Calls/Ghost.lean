import OjsSqs.Calls.Prog

/-! # A ghost beside the state

A ghost follows the calls of a run and their answers. It keeps what the state
forgets, and a statement can speak about it, but it decides nothing: without
it the program has the same runs. -/
namespace Calls

variable {W C G K : Type} {R : C → Type} {α : Type}

/-- What a ghost notes of a call: its answer, and the states before and after. -/
abbrev Note (W C : Type) (R : C → Type) (G : Type) := (c : C) → R c → W → W → G → G

/-- The environment with a ghost beside its state. -/
def Env.withGhost (E : Env W C R) (note : Note W C R G) : Env (W × G) C R :=
  fun c x r x' => E c x.1 r x'.1 ∧ x'.2 = note c r x.1 x'.1 x.2

variable {E : Env W C R} {note : Note W C R G}

/-- Any run can be followed by a ghost. -/
theorem Runs.follow {p : Prog C R α} {w w' : W} {a : α} (h : Runs E p w a w') (g : G) :
    ∃ g', Runs (E.withGhost note) p (w, g) a (w', g') := by
  induction h generalizing g with
  | pure => exact ⟨g, .pure⟩
  | @call c k w w₁ w₂ r a he _ ih =>
    obtain ⟨g', hr⟩ := ih (note c r w w₁ g)
    exact ⟨g', .call ⟨he, rfl⟩ hr⟩

/-- One call: the ghost notes what the environment answers. -/
theorem wp_ghost {c : C} {Q : R c → W × G → Prop} {w : W} {g : G}
    (h : wp E.every (.perform c) (fun r w' => Q r (w', note c r w w' g)) w) :
    wp (E.withGhost note).every (.perform c) Q (w, g) := by
  rintro r ⟨w', g'⟩ ⟨he, hg⟩
  obtain rfl : g' = note c r w w' g := hg
  exact h r w' he

theorem wp_ghost_every {c : C} {Q : R c → W × G → Prop} {w : W} {g : G}
    (h : ∀ r w', E c w r w' → Q r (w', note c r w w' g)) :
    wp (E.withGhost note).every (.perform c) Q (w, g) :=
  wp_ghost h

/-- A stretch of a program of whose calls nothing is noted. -/
theorem wp_ghost_only {P : C → Prop} {p : Prog C R α} {Q : α → W × G → Prop} {w : W} {g : G}
    (hp : p.Only P) (hg : ∀ c r w w', P c → note c r w w' g = g)
    (h : wp E.every p (fun a w' => Q a (w', g)) w) : wp (E.withGhost note).every p Q (w, g) := by
  induction p generalizing w with
  | pure a => exact h
  | call c k ih =>
    obtain ⟨hc, hk⟩ := hp
    rintro r ⟨w', g'⟩ ⟨he, hnote⟩
    obtain rfl : g' = g := hnote.trans (hg c r w w' hc)
    exact ih r (hk r) (h r w' he)

/-! ## Scripts with a ghost -/

/-- An environment given by a function of a choice, with a ghost. -/
def ghostAct (act : K → (c : C) → W → Option (R c × W)) (note : Note W C R G) :
    K → (c : C) → W × G → Option (R c × (W × G)) :=
  fun ch c x => (act ch c x.1).map fun out => (out.1, out.2, note c out.1 x.1 out.2 x.2)

theorem ghostAct_env {act : K → (c : C) → W → Option (R c × W)} {c : C} {x x' : W × G} {r : R c}
    (h : Env.ofAct (ghostAct act note) c x r x') :
    (Env.ofAct act).withGhost note c x r x' := by
  obtain ⟨ch, he⟩ := h
  obtain ⟨⟨r', w'⟩, ha, he⟩ := Option.map_eq_some_iff.mp he
  cases he
  exact ⟨⟨ch, ha⟩, rfl⟩

theorem ghost_script_runs {act : K → (c : C) → W → Option (R c × W)} (cs : List K)
    {p : Prog C R α} {x x' : W × G} {a : α}
    (h : script (ghostAct act note) cs p x = some (a, x')) :
    Runs ((Env.ofAct act).withGhost note) p x a x' :=
  (script_runs cs h).mono fun _ _ _ _ => ghostAct_env

/-! ## Filters

A filter stands between the programs and the environment. It keeps a state of
its own, and it decides what is left of the effect of a call; the answer is
the environment's. -/

/-- What a filter leaves of a call: the states before and after are given. -/
abbrev Filter (W C : Type) (R : C → Type) (G : Type) := (c : C) → R c → W → W → G → W × G

/-- An environment given by a function of a choice, behind a filter. -/
def filterAct (act : K → (c : C) → W → Option (R c × W)) (f : Filter W C R G) :
    K → (c : C) → W × G → Option (R c × (W × G)) :=
  fun ch c x => (act ch c x.1).map fun out => (out.1, f c out.1 x.1 out.2 x.2)

section
variable {act : K → (c : C) → W → Option (R c × W)} {f : Filter W C R G}

theorem filterAct_env {c : C} {x x' : W × G} {r : R c} :
    Env.ofAct (filterAct act f) c x r x' ↔
      ∃ w', Env.ofAct act c x.1 r w' ∧ x' = f c r x.1 w' x.2 := by
  constructor
  · rintro ⟨ch, he⟩
    obtain ⟨⟨r', w'⟩, ha, he⟩ := Option.map_eq_some_iff.mp he
    cases he
    exact ⟨w', ⟨ch, ha⟩, rfl⟩
  · rintro ⟨w', ⟨ch, ha⟩, rfl⟩
    exact ⟨ch, by rw [filterAct, ha]; rfl⟩

/-- One call: the filter decides what is left of it. -/
theorem wp_filter {c : C} {Q : R c → W × G → Prop} {w : W} {g : G}
    (h : wp (Env.ofAct act).every (.perform c) (fun r w' => Q r (f c r w w' g)) w) :
    wp (Env.ofAct (filterAct act f)).every (.perform c) Q (w, g) := by
  intro r x' he
  obtain ⟨w', ha, rfl⟩ := filterAct_env.mp he
  exact h r w' ha

/-- A stretch of a program whose calls the filter lets through. -/
theorem wp_filter_only {P : C → Prop} {p : Prog C R α} {Q : α → W × G → Prop} {w : W} {g : G}
    (hp : p.Only P) (hf : ∀ c r w w' g, P c → f c r w w' g = (w', g))
    (h : wp (Env.ofAct act).every p (fun a w' => Q a (w', g)) w) :
    wp (Env.ofAct (filterAct act f)).every p Q (w, g) := by
  induction p generalizing w with
  | pure a => exact h
  | call c k ih =>
    obtain ⟨hc, hk⟩ := hp
    intro r x' he
    obtain ⟨w', ha, rfl⟩ := filterAct_env.mp he
    rw [hf c r w w' g hc]
    exact ih r (hk r) (h r w' ha)

/-- The note of a state that has a filter's beside it. -/
def Note.beside (note : Note W C R G) {H : Type} : Note (W × H) C R G :=
  fun c r x x' g => note c r x.1 x'.1 g

/-- A stretch whose calls the filter lets through, followed by a ghost. -/
theorem wp_ghost_filter {H : Type} {f : Filter W C R H} {note : Note W C R G} {P : C → Prop}
    {p : Prog C R α} {Q : α → (W × H) × G → Prop} {w : W} {h : H} {g : G} (hp : p.Only P)
    (hf : ∀ c r w w' h, P c → f c r w w' h = (w', h))
    (hw : wp ((Env.ofAct act).withGhost note).every p (fun a x => Q a ((x.1, h), x.2)) (w, g)) :
    wp ((Env.ofAct (filterAct act f)).withGhost note.beside).every p Q ((w, h), g) := by
  induction p generalizing w g with
  | pure a => exact hw
  | call c k ih =>
    obtain ⟨hc, hk⟩ := hp
    rintro r ⟨x', g'⟩ ⟨he, hg⟩
    obtain ⟨w', ha, hx⟩ := filterAct_env.mp he
    rw [hf c r w w' h hc] at hx
    obtain rfl : x' = (w', h) := hx
    exact ih r (hk r) (hw r (w', g') ⟨ha, hg⟩)

end

end Calls
