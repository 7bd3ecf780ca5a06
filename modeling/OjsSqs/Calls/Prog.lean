import Mathlib.Tactic.Basic

/-! # Programs over an interface of calls

A program is a tree: it returns, or makes a call and goes on with the answer.
Nothing here says what a call does. An environment says which answers a call
may get in a state and what the state is afterwards, and the same program can
be run in several of them: without faults, with faults, one call at a time
next to other programs. The weakest precondition of a program is a fold of
the meaning of its calls, so it unfolds by rewriting. -/

namespace Calls

/-- `C` the calls of the interface, `R c` the answers to the call `c`. -/
inductive Prog (C : Type) (R : C → Type) (α : Type) where
  | pure (a : α)
  | call (c : C) (k : R c → Prog C R α)

namespace Prog
variable {C : Type} {R : C → Type} {α β γ : Type}

def bind : Prog C R α → (α → Prog C R β) → Prog C R β
  | .pure a, f => f a
  | .call c k, f => .call c fun r => (k r).bind f

instance : Monad (Prog C R) where
  pure := .pure
  bind := bind

/-- The program that makes one call and returns its answer. -/
def perform (c : C) : Prog C R (R c) := .call c .pure

theorem pure_bind (a : α) (f : α → Prog C R β) : (Pure.pure a : Prog C R α) >>= f = f a := rfl

theorem bind_pure (p : Prog C R α) : p.bind Prog.pure = p := by
  induction p with
  | pure a => rfl
  | call c k ih => simp only [bind, ih]

theorem bind_assoc (p : Prog C R α) (f : α → Prog C R β) (g : β → Prog C R γ) :
    (p.bind f).bind g = p.bind fun a => (f a).bind g := by
  induction p with
  | pure a => rfl
  | call c k ih => simp only [bind, ih]

instance : LawfulMonad (Prog C R) :=
  LawfulMonad.mk' _ (fun p => bind_pure p) (fun _ _ => rfl) (fun p f g => bind_assoc p f g)

end Prog

/-! ## Weakest preconditions -/

/-- What each call guarantees, as a predicate transformer on states. -/
abbrev Effect (W C : Type) (R : C → Type) := (c : C) → (R c → W → Prop) → W → Prop

variable {W C : Type} {R : C → Type} {α β : Type}

def wp (Φ : Effect W C R) : Prog C R α → (α → W → Prop) → W → Prop
  | .pure a, Q, w => Q a w
  | .call c k, Q, w => Φ c (fun r w' => wp Φ (k r) Q w') w

@[simp] theorem wp_pure (Φ : Effect W C R) (a : α) (Q : α → W → Prop) (w : W) :
    wp Φ (Pure.pure a) Q w = Q a w := rfl

@[simp] theorem wp_perform (Φ : Effect W C R) (c : C) (Q : R c → W → Prop) (w : W) :
    wp Φ (Prog.perform c) Q w = Φ c Q w := rfl

@[simp] theorem wp_bind (Φ : Effect W C R) (p : Prog C R α) (f : α → Prog C R β)
    (Q : β → W → Prop) (w : W) :
    wp Φ (p >>= f) Q w = wp Φ p (fun a w' => wp Φ (f a) Q w') w := by
  induction p generalizing w with
  | pure a => rfl
  | call c k ih => exact congrArg (Φ c · w) (funext fun r => funext fun w' => ih r w')

@[simp] theorem wp_map (Φ : Effect W C R) (p : Prog C R α) (f : α → β)
    (Q : β → W → Prop) (w : W) :
    wp Φ (f <$> p) Q w = wp Φ p (fun a w' => Q (f a) w') w := by
  rw [map_eq_pure_bind, wp_bind]; rfl

@[simp] theorem wp_ite (Φ : Effect W C R) (P : Prop) [Decidable P] (p q : Prog C R α)
    (Q : α → W → Prop) (w : W) :
    wp Φ (if P then p else q) Q w = if P then wp Φ p Q w else wp Φ q Q w := by
  split <;> rfl

/-- A call that guarantees more still guarantees what it did. -/
def Effect.Mono (Φ : Effect W C R) : Prop :=
  ∀ c (Q Q' : R c → W → Prop) w, (∀ r w', Q r w' → Q' r w') → Φ c Q w → Φ c Q' w

theorem wp_mono {Φ : Effect W C R} (hΦ : Φ.Mono) (p : Prog C R α) {Q Q' : α → W → Prop} {w : W}
    (h : wp Φ p Q w) (hQ : ∀ a w', Q a w' → Q' a w') : wp Φ p Q' w := by
  induction p generalizing w with
  | pure a => exact hQ _ _ h
  | call c k ih => exact hΦ c _ _ w (fun r w' => ih r) h

/-! ## Which calls a program makes -/

/-- On every path, whatever the answers, only calls that meet `P` are made. -/
def Prog.Only (P : C → Prop) (p : Prog C R α) : Prop :=
  wp (fun c Q (u : Unit) => P c ∧ ∀ r : R c, Q r u) p (fun _ _ => True) ()

namespace Prog
variable {P P' : C → Prop}

theorem only_pure (a : α) : (Pure.pure a : Prog C R α).Only P := trivial

theorem only_perform {c : C} (h : P c) : (perform c : Prog C R (R c)).Only P :=
  ⟨h, fun _ => trivial⟩

theorem only_bind {p : Prog C R α} {f : α → Prog C R β} (hp : p.Only P)
    (hf : ∀ a, (f a).Only P) : (p >>= f).Only P := by
  induction p with
  | pure a => exact hf a
  | call c k ih => exact ⟨hp.1, fun r => ih r (hp.2 r)⟩

theorem Only.mono {p : Prog C R α} (h : p.Only P) (hP : ∀ c, P c → P' c) : p.Only P' := by
  induction p with
  | pure a => trivial
  | call c k ih => exact ⟨hP c h.1, fun r => ih r (h.2 r)⟩

end Prog

/-! ## Environments and runs -/

/-- Which answer a call may get, and the state it leaves. -/
abbrev Env (W C : Type) (R : C → Type) := (c : C) → W → R c → W → Prop

/-- Every answer the environment allows has to be met. -/
def Env.every (E : Env W C R) : Effect W C R := fun c Q w => ∀ r w', E c w r w' → Q r w'

theorem Env.every_mono (E : Env W C R) : E.every.Mono :=
  fun _ _ _ _ h hQ r w' he => h r w' (hQ r w' he)

/-- A program's run to its end, every call answered by the environment. -/
inductive Runs (E : Env W C R) : Prog C R α → W → α → W → Prop
  | pure {a : α} {w : W} : Runs E (.pure a) w a w
  | call {c : C} {k : R c → Prog C R α} {w w' w'' : W} {r : R c} {a : α} :
      E c w r w' → Runs E (k r) w' a w'' → Runs E (.call c k) w a w''

/-- The weakest precondition speaks about every run. -/
theorem wp_iff_runs (E : Env W C R) (p : Prog C R α) (Q : α → W → Prop) (w : W) :
    wp E.every p Q w ↔ ∀ a w', Runs E p w a w' → Q a w' := by
  induction p generalizing w with
  | pure a =>
    refine ⟨fun h a' w' hr => ?_, fun h => h a w .pure⟩
    cases hr; exact h
  | call c k ih =>
    constructor
    · intro h a w' hr
      cases hr with
      | call he hk => exact (ih _ _).mp (h _ _ he) a w' hk
    · intro h r w' he
      exact (ih r w').mpr fun a w'' hk => h a w'' (.call he hk)

theorem wp_runs {E : Env W C R} {p : Prog C R α} {Q : α → W → Prop} {w w' : W} {a : α}
    (h : wp E.every p Q w) (hr : Runs E p w a w') : Q a w' :=
  (wp_iff_runs E p Q w).mp h a w' hr

/-- Nothing has to be known about a stretch after which everything is right. -/
theorem wp_always (E : Env W C R) (p : Prog C R α) {Q : α → W → Prop} (h : ∀ a w, Q a w) (w : W) :
    wp E.every p Q w :=
  (wp_iff_runs E p Q w).mpr fun a w' _ => h a w'

theorem Runs.mono {E E' : Env W C R} {p : Prog C R α} {w w' : W} {a : α}
    (hE : ∀ c w r w', E c w r w' → E' c w r w') (hr : Runs E p w a w') : Runs E' p w a w' := by
  induction hr with
  | pure => exact .pure
  | call he _ ih => exact .call (hE _ _ _ _ he) ih

/-- A weakest precondition holds in every environment that allows less. -/
theorem wp_of_every {E E' : Env W C R} (hE : ∀ c w r w', E c w r w' → E' c w r w')
    {p : Prog C R α} {Q : α → W → Prop} {w : W} (h : wp E'.every p Q w) : wp E.every p Q w :=
  (wp_iff_runs E p Q w).mpr fun _ _ hr => wp_runs h (hr.mono hE)

/-- What every call of the program keeps, the program keeps. -/
theorem Prog.Only.keeps {E : Env W C R} {P : C → Prop} {p : Prog C R α} {w : W} (I : W → Prop)
    (hp : p.Only P) (hI : ∀ c w r w', P c → I w → E c w r w' → I w') (h : I w) :
    wp E.every p (fun _ => I) w := by
  induction p generalizing w with
  | pure a => exact h
  | call c k ih =>
    obtain ⟨hc, hk⟩ := hp
    exact fun r w' he => ih r (hk r) (hI c w r w' hc h he)

/-- Two environments that answer the calls of a program alike. -/
theorem Prog.Only.wp_iff {E E' : Env W C R} {P : C → Prop} {p : Prog C R α} (hp : p.Only P)
    (hE : ∀ c w r w', P c → (E c w r w' ↔ E' c w r w')) (Q : α → W → Prop) (w : W) :
    wp E.every p Q w ↔ wp E'.every p Q w := by
  induction p generalizing w with
  | pure a => exact Iff.rfl
  | call c k ih =>
    obtain ⟨hc, hk⟩ := hp
    exact forall₂_congr fun r w' =>
      ⟨fun h he => (ih r (hk r) w').mp (h ((hE c w r w' hc).mpr he)),
        fun h he => (ih r (hk r) w').mpr (h ((hE c w r w' hc).mp he))⟩

/-- Whatever the answers, the program keeps `I`. -/
def Env.Keeps (E : Env W C R) (I : W → Prop) (p : Prog C R α) : Prop :=
  ∀ w, I w → wp E.every p (fun _ => I) w

section
variable {E : Env W C R} {I : W → Prop}

theorem keeps_pure (a : α) : E.Keeps I (Pure.pure a : Prog C R α) := fun _ h => h

theorem keeps_bind {p : Prog C R α} {f : α → Prog C R β} (hp : E.Keeps I p)
    (hf : ∀ a, E.Keeps I (f a)) : E.Keeps I (p >>= f) := by
  intro w h
  rw [wp_bind]
  exact wp_mono (Env.every_mono E) p (hp w h) fun a w' h' => hf a w' h'

end

/-! ## Scripts

An environment that is given by a function of a choice can be run: the script
lists the choice made at each call. -/

/-- The environment in which some choice gives the answer. -/
def Env.ofAct {K : Type} (act : K → (c : C) → W → Option (R c × W)) : Env W C R :=
  fun c w r w' => ∃ ch, act ch c w = some (r, w')

/-- Run a program on a script; nothing when the script does not fit it. -/
def script {K : Type} (act : K → (c : C) → W → Option (R c × W)) :
    List K → Prog C R α → W → Option (α × W)
  | [], .pure a, w => some (a, w)
  | ch :: cs, .call c k, w => match act ch c w with
    | some (r, w') => script act cs (k r) w'
    | none => none
  | _, _, _ => none

theorem script_runs {K : Type} {act : K → (c : C) → W → Option (R c × W)} (cs : List K)
    {p : Prog C R α} {w w' : W} {a : α} (h : script act cs p w = some (a, w')) :
    Runs (Env.ofAct act) p w a w' := by
  induction cs generalizing p w with
  | nil =>
    cases p with
    | pure b => simp only [script, Option.some.injEq, Prod.mk.injEq] at h; rw [h.1, h.2]; exact .pure
    | call c k => simp [script] at h
  | cons ch cs ih =>
    cases p with
    | pure b => simp [script] at h
    | call c k =>
      simp only [script] at h
      split at h
      · rename_i r w₁ he
        exact .call ⟨ch, he⟩ (ih h)
      · cases h

/-! ## Calls that the state forbids

A guard says which calls may be made in a state. A program is within it when no
answer the environment gives leads to a call that is not. Nothing here says what
a call or a state is. -/

section
variable {W C : Type} {R : C → Type} {α β : Type}

/-- Every call is one the guard allows, and every answer has to be met. -/
def Env.guarded (E : Env W C R) (allow : W → C → Prop) : Effect W C R :=
  fun c Q w => allow w c ∧ ∀ r w', E c w r w' → Q r w'

section
variable {E : Env W C R} {allow : W → C → Prop} {p : Prog C R α} {Q : α → W → Prop} {w w' : W}

theorem Env.guarded_mono (E : Env W C R) (allow : W → C → Prop) : (E.guarded allow).Mono :=
  fun _ _ _ _ h hQ => ⟨hQ.1, fun r w' he => h r w' (hQ.2 r w' he)⟩

/-- The guard is a further demand. -/
theorem guarded_every (h : wp (E.guarded allow) p Q w) : wp E.every p Q w := by
  induction p generalizing w with
  | pure a => exact h
  | call c k ih => exact fun r w' he => ih r (h.2 r w' he)

/-- Calls that are allowed in every state do not meet the guard. -/
theorem Prog.Only.guarded {P : C → Prop} (hp : p.Only P) (hP : ∀ c w, P c → allow w c)
    (h : wp E.every p Q w) : wp (E.guarded allow) p Q w := by
  induction p generalizing w with
  | pure a => exact h
  | call c k ih =>
    obtain ⟨hc, hk⟩ := hp
    exact ⟨hP c w hc, fun r w' he => ih r (hk r) (h r w' he)⟩

/-- Nor do calls that keep what allows them. -/
theorem Prog.Only.guarded_keeps {P : C → Prop} {I : W → Prop} (hp : p.Only P)
    (hI : ∀ c w, P c → I w → allow w c ∧ ∀ r w', E c w r w' → I w') (h : I w) :
    wp (E.guarded allow) p (fun _ => I) w := by
  induction p generalizing w with
  | pure a => exact h
  | call c k ih =>
    obtain ⟨hc, hk⟩ := hp
    obtain ⟨ha, he⟩ := hI c w hc h
    exact ⟨ha, fun r w' hr => ih r (hk r) (he r w' hr)⟩

/-- A program whose calls are always answered has a run. -/
theorem exists_runs (hE : ∀ c w, ∃ r w', E c w r w') (p : Prog C R α) (w : W) :
    ∃ a w', Runs E p w a w' := by
  induction p generalizing w with
  | pure a => exact ⟨a, w, .pure⟩
  | call c k ih =>
    obtain ⟨r, w', he⟩ := hE c w
    obtain ⟨a, w'', hr⟩ := ih r w'
    exact ⟨a, w'', .call he hr⟩

end

end

/-! ## Loops whose turns do not meet

A loop goes through a list, and the turn of each element works on what belongs
to the element's key. When no key comes twice, what a turn needs is still
there when it begins, and what it leaves is still there when the loop ends. -/

/-- What the turns of a loop need and leave. `Same k` says that what belongs to
the key `k` is as it was. -/
structure Turns (X K A : Type) where
  key : A → K
  Same : K → X → X → Prop
  Ready : A → X → Prop
  Done : A → X → Prop
  refl : ∀ k x, Same k x x
  trans : ∀ {k x y z}, Same k x y → Same k y z → Same k x z
  ready : ∀ {a x x'}, Same (key a) x x' → Ready a x → Ready a x'
  done : ∀ {a x x'}, Same (key a) x x' → Done a x → Done a x'

namespace Turns
variable {X K A B C α β : Type} {R : C → Type}

/-- After the turns of a list. -/
structure After (t : Turns X K A) (as : List A) (x x' : X) : Prop where
  own : ∀ a ∈ as, t.Done a x'
  others : ∀ k, k ∉ as.map t.key → t.Same k x x'

/-- One turn, and the turns that follow it. -/
theorem After.cons {t : Turns X K A} {a : A} {as : List A} {x x₁ x₂ : X} (hdone : t.Done a x₁)
    (hsame : ∀ k, k ≠ t.key a → t.Same k x x₁) (h : t.After as x₁ x₂)
    (hfresh : t.key a ∉ as.map t.key) : t.After (a :: as) x x₂ where
  own b hb := by
    rcases List.mem_cons.mp hb with rfl | hb
    · exact t.done (h.others _ hfresh) hdone
    · exact h.own b hb
  others k hk := by
    rw [List.map_cons, List.mem_cons, not_or] at hk
    exact t.trans (hsame k hk.1) (h.others k hk.2)

/-- **The rule of a loop.** Each turn is shown to do its work and to leave the
other keys alone. -/
theorem wp_loop (t : Turns X K A) {Φ : Effect X C R} (hΦ : Φ.Mono) {body : A → Prog C R α}
    {next : B → α → B} {loop : List A → B → Prog C R β} (last : B → β)
    (hnil : ∀ b, loop [] b = pure (last b))
    (hcons : ∀ a as b, loop (a :: as) b = body a >>= fun r => loop as (next b r))
    (hbody : ∀ a x, t.Ready a x →
      wp Φ (body a) (fun _ x' => t.Done a x' ∧ ∀ k, k ≠ t.key a → t.Same k x x') x)
    (as : List A) (b : B) {x : X} (hnodup : (as.map t.key).Nodup)
    (hready : ∀ a ∈ as, t.Ready a x) : wp Φ (loop as b) (fun _ x' => t.After as x x') x := by
  induction as generalizing b x with
  | nil =>
    rw [hnil]
    exact ⟨fun _ ha => absurd ha List.not_mem_nil, fun k _ => t.refl k x⟩
  | cons a as ih =>
    obtain ⟨hfresh, hnodup⟩ := List.nodup_cons.mp hnodup
    rw [hcons, wp_bind]
    refine wp_mono hΦ _ (hbody a x (hready a List.mem_cons_self)) fun r x₁ ⟨hdone, hsame⟩ => ?_
    have hnext : ∀ c ∈ as, t.Ready c x₁ := by
      intro c hc
      have hne : t.key c ≠ t.key a := fun heq => hfresh (List.mem_map.mpr ⟨c, hc, heq⟩)
      exact t.ready (hsame _ hne) (hready c (List.mem_cons_of_mem _ hc))
    exact wp_mono hΦ _ (ih (next b r) hnodup hnext) fun _ x₂ h => After.cons hdone hsame h hfresh

end Turns

end Calls
