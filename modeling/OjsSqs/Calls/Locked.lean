import OjsSqs.Calls.Path
import OjsSqs.Calls.Pool
import Mathlib.Data.List.Nodup

/-! # Sections under a lock

What a readers-writer lock guards is reached in sections: a program takes the
lock, makes its calls and leaves. In a pool each call of a section is a step of
its own. In the order in which they leave the lock the sections do what they
would do one after the other, and while a program has not returned some program
can go on. Nothing here says what is guarded. -/

namespace Calls

/-- The calls of the lock beside those of what it guards. -/
inductive Locking (C : Type) where
  | lock | unlock | rLock | rUnlock
  | guarded (c : C)

abbrev Locking.Answer {C : Type} (R : C → Type) : Locking C → Type
  | .guarded c => R c
  | _ => Unit

/-- What is guarded, and who is inside: a writer, or so many readers. -/
structure Locked (W : Type) where
  guarded : W
  writing : Bool := false
  reading : Nat := 0

inductive Access where
  | read
  | write
deriving DecidableEq, Repr

variable {ι W C K : Type} {R : C → Type} {α : Type}

/-- A call of the lock waits until the lock allows it. -/
def lockedAct (act : K → (c : C) → W → Option (R c × W)) :
    K → (c : Locking C) → Locked W → Option (Locking.Answer R c × Locked W)
  | _, .lock, w =>
    if w.writing = false ∧ w.reading = 0 then some ((), { w with writing := true }) else none
  | _, .unlock, w => if w.writing then some ((), { w with writing := false }) else none
  | _, .rLock, w =>
    if w.writing = false then some ((), { w with reading := w.reading + 1 }) else none
  | _, .rUnlock, w => if 0 < w.reading then some ((), { w with reading := w.reading - 1 }) else none
  | ch, .guarded c, w => (act ch c w.guarded).map fun out => (out.1, { w with guarded := out.2 })

def Access.enter : Access → Locking C
  | .read => .rLock
  | .write => .lock

def Access.leave : Access → Locking C
  | .read => .rUnlock
  | .write => .unlock

namespace Prog

/-- What is left of a section whose calls still to make are those of `p`. -/
def closing (how : Access) : Prog C R α → Prog (Locking C) (Locking.Answer R) α
  | .pure a => .call how.leave fun _ => .pure a
  | .call c k => .call (.guarded c) fun r => (k r).closing how

/-- The program in a section of its own. -/
def locked (how : Access) (p : Prog C R α) : Prog (Locking C) (Locking.Answer R) α :=
  .call how.enter fun _ => p.closing how

end Prog

/-! ## What a call of the lock does -/

section
variable {act : K → (c : C) → W → Option (R c × W)} {ch : K} {w w' : Locked W} {how : Access}

def Access.entered : Access → Locked W → Locked W
  | .read, w => { w with reading := w.reading + 1 }
  | .write, w => { w with writing := true }

def Access.left : Access → Locked W → Locked W
  | .read, w => { w with reading := w.reading - 1 }
  | .write, w => { w with writing := false }

@[simp] theorem Access.entered_guarded (w : Locked W) :
    (how.entered w).guarded = w.guarded := by
  cases how <;> rfl

@[simp] theorem Access.left_guarded (w : Locked W) : (how.left w).guarded = w.guarded := by
  cases how <;> rfl

/-- The lock lets a program in. -/
def Access.Free (how : Access) (w : Locked W) : Prop :=
  match how with
  | .read => w.writing = false
  | .write => w.writing = false ∧ w.reading = 0

/-- Somebody has come in this way. -/
def Access.Held (how : Access) (w : Locked W) : Prop :=
  match how with
  | .read => 0 < w.reading
  | .write => w.writing = true

omit act ch in
theorem ite_answered {P : Prop} [Decidable P] {x : Locked W} {r : Unit} :
    (if P then some ((), x) else none) = some (r, w') ↔ P ∧ w' = x := by
  by_cases hP : P
  · simp [hP, eq_comm]
  · simp [hP]

theorem lockedAct_enter {r : Locking.Answer R how.enter} :
    lockedAct act ch how.enter w = some (r, w') ↔ how.Free w ∧ w' = how.entered w := by
  cases how with
  | read => exact ite_answered
  | write => exact ite_answered

theorem lockedAct_leave {r : Locking.Answer R how.leave} :
    lockedAct act ch how.leave w = some (r, w') ↔ how.Held w ∧ w' = how.left w := by
  cases how with
  | read => exact ite_answered
  | write => exact ite_answered

theorem lockedAct_can_enter (act : K → (c : C) → W → Option (R c × W)) (ch : K)
    (h : how.Free w) : ∃ r w', lockedAct act ch how.enter w = some (r, w') := by
  cases how with
  | read => exact ⟨(), _, lockedAct_enter.mpr ⟨h, rfl⟩⟩
  | write => exact ⟨(), _, lockedAct_enter.mpr ⟨h, rfl⟩⟩

theorem lockedAct_can_leave (act : K → (c : C) → W → Option (R c × W)) (ch : K)
    (h : how.Held w) : ∃ r w', lockedAct act ch how.leave w = some (r, w') := by
  cases how with
  | read => exact ⟨(), _, lockedAct_leave.mpr ⟨h, rfl⟩⟩
  | write => exact ⟨(), _, lockedAct_leave.mpr ⟨h, rfl⟩⟩

theorem lockedAct_guarded {c : C} {r : R c} :
    lockedAct act ch (.guarded c) w = some (r, w') ↔
      act ch c w.guarded = some (r, w'.guarded) ∧ w' = { w with guarded := w'.guarded } := by
  simp only [lockedAct, Option.map_eq_some_iff, Prod.mk.injEq]
  constructor
  · intro ⟨out, hout, hr, hw⟩
    subst hr hw
    exact ⟨hout, rfl⟩
  · intro ⟨hact, hw⟩
    exact ⟨_, hact, rfl, hw.symm⟩

end

/-! ## A pool of sections -/

namespace Pool

/-- Each program of the pool is one section. -/
def sections (how : ι → Access) (body : ι → Prog C R α) (w : W) :
    Pool ι (Locked W) (Locking C) (Locking.Answer R) α :=
  ⟨{ guarded := w }, fun i => (body i).locked (how i)⟩

/-- The thread whose section ends with the event. -/
def departure (e : Event ι (Locking C) (Locking.Answer R)) : Option ι :=
  match e.call with
  | .unlock | .rUnlock => some e.thread
  | _ => none

/-- The threads that have left the lock, in the order in which they left it. -/
def departures (tr : List (Event ι (Locking C) (Locking.Answer R))) : List ι :=
  tr.filterMap departure

@[simp] theorem departure_leave (i : ι) (how : Access)
    (r : Locking.Answer R (how.leave : Locking C)) : departure ⟨i, how.leave, r⟩ = some i := by
  cases how <;> rfl

@[simp] theorem departure_enter (i : ι) (how : Access)
    (r : Locking.Answer R (how.enter : Locking C)) : departure ⟨i, how.enter, r⟩ = none := by
  cases how <;> rfl

@[simp] theorem departures_snoc (tr : List (Event ι (Locking C) (Locking.Answer R)))
    (e : Event ι (Locking C) (Locking.Answer R)) :
    departures (tr ++ [e]) = departures tr ++ (departure e).toList := by
  rw [departures, List.filterMap_append, List.filterMap_cons]
  cases departure e <;> rfl

/-- Whole sections, one after the other, with what each returns. -/
def InTurn (E : Env W C R) (body : ι → Prog C R α) : W → ι × α → W → Prop :=
  fun w x w' => Runs E (body x.1) w x.2 w'

/-- The calls of `p` are those a section of thread `i` has still to make. -/
structure UnderWay (act : K → (c : C) → W → Option (R c × W)) (reads : C → Prop) (how : ι → Access)
    (body : ι → Prog C R α) (base v : W) (i : ι) (p : Prog C R α) : Prop where
  only : how i = .read → p.Only reads
  runs : ∀ a w', Runs (Env.ofAct act) p v a w' → Runs (Env.ofAct act) (body i) base a w'

/-- Where a pool of sections is: `done` has left, `inside` has the lock, and
`base` is what was guarded when a writer last left. -/
structure Serving (act : K → (c : C) → W → Option (R c × W)) (reads : C → Prop) (how : ι → Access)
    (body : ι → Prog C R α) (w : W) (P : Pool ι (Locked W) (Locking C) (Locking.Answer R) α)
    (done : List (ι × α)) (base : W) (inside : List ι) : Prop where
  turns : Path (InTurn (Env.ofAct act) body) w done base
  apart : inside.Nodup
  once : (done.map Prod.fst).Nodup
  lock :
    (P.world.writing = false ∧ P.world.reading = inside.length ∧ (∀ i ∈ inside, how i = .read) ∧
      P.world.guarded = base) ∨
    (P.world.writing = true ∧ P.world.reading = 0 ∧ ∃ i, inside = [i] ∧ how i = .write)
  waiting : ∀ i, i ∉ inside → i ∉ done.map Prod.fst → P.thread i = (body i).locked (how i)
  working : ∀ i ∈ inside, i ∉ done.map Prod.fst ∧ ∃ p : Prog C R α,
    P.thread i = p.closing (how i) ∧ UnderWay act reads how body base P.world.guarded i p
  gone : ∀ x ∈ done, P.Returned x.1 x.2

variable [DecidableEq ι] {act : K → (c : C) → W → Option (R c × W)} {reads : C → Prop}
  {how : ι → Access} {body : ι → Prog C R α} {w : W}
  {P P' : Pool ι (Locked W) (Locking C) (Locking.Answer R) α} {done : List (ι × α)} {base : W}
  {inside : List ι}

namespace Serving

omit [DecidableEq ι] in
theorem start : Serving act reads how body w (sections how body w) [] w [] where
  turns := .nil
  apart := List.nodup_nil
  once := List.nodup_nil
  lock := by simp [sections]
  waiting i _ _ := rfl
  working i hi := by cases hi
  gone x hx := by cases hx

omit [DecidableEq ι] in
/-- A writer is alone. -/
theorem alone (h : Serving act reads how body w P done base inside) {i : ι} (hi : i ∈ inside)
    (hm : how i = .write) : P.world.writing = true ∧ P.world.reading = 0 ∧ inside = [i] := by
  obtain ⟨-, -, hall, -⟩ | ⟨hw, hz, j, hj, -⟩ := h.lock
  · rw [hall i hi] at hm
    cases hm
  · rw [hj] at hi
    cases List.mem_singleton.mp hi
    exact ⟨hw, hz, hj⟩

omit [DecidableEq ι] in
/-- While a reader is inside nothing is written. -/
theorem calm (h : Serving act reads how body w P done base inside) {i : ι} (hi : i ∈ inside)
    (hm : how i = .read) : P.world.writing = false ∧ P.world.reading = inside.length ∧
      (∀ i ∈ inside, how i = .read) ∧ P.world.guarded = base := by
  obtain hr | ⟨-, -, j, hj, hw⟩ := h.lock
  · exact hr
  · rw [hj] at hi
    cases List.mem_singleton.mp hi
    rw [hm] at hw
    cases hw

/-- A program that the lock lets in. -/
theorem enter (h : Serving act reads how body w P done base inside)
    (hbody : ∀ i, how i = .read → (body i).Only reads) {i : ι} (hi : i ∉ inside)
    (hd : i ∉ done.map Prod.fst) (hfree : (how i).Free P.world) :
    Serving act reads how body w
      ⟨(how i).entered P.world, Function.update P.thread i ((body i).closing (how i))⟩ done base
      (i :: inside) := by
  obtain ⟨hw, hr, hall, hbase⟩ | ⟨hw, -, -⟩ := h.lock
  case inr =>
    cases hm : how i with
    | read => simp [hm, Access.Free, hw] at hfree
    | write => simp [hm, Access.Free, hw] at hfree
  constructor
  · exact h.turns
  · exact List.nodup_cons.mpr ⟨hi, h.apart⟩
  · exact h.once
  · cases hm : how i with
    | read =>
      left
      refine ⟨hw, congrArg (· + 1) hr, ?_, hbase⟩
      intro j hj
      cases hj with
      | head => exact hm
      | tail _ hj => exact hall j hj
    | write =>
      right
      rw [hm] at hfree
      have hz : inside = [] := List.length_eq_zero_iff.mp (hr.symm.trans hfree.2)
      exact ⟨rfl, hfree.2, i, by rw [hz], hm⟩
  · intro j hj hjd
    have hji : j ≠ i := fun he => hj (he ▸ List.mem_cons_self)
    exact (Function.update_of_ne hji _ _).trans
      (h.waiting j (fun hm => hj (List.mem_cons_of_mem _ hm)) hjd)
  · intro j hj
    simp only [Access.entered_guarded]
    by_cases hji : j = i
    · subst hji
      refine ⟨hd, body j, Function.update_self .., hbody j, ?_⟩
      intro a w' hr
      rwa [hbase] at hr
    · obtain ⟨hjd, p, hp, hu⟩ := h.working j ((List.mem_cons.mp hj).resolve_left hji)
      exact ⟨hjd, p, (Function.update_of_ne hji _ _).trans hp, hu⟩
  · intro x hx
    have hxi : x.1 ≠ i := fun he => hd (he ▸ List.mem_map_of_mem hx)
    exact (Function.update_of_ne hxi _ _).trans (h.gone x hx)

/-- A call of a section that is under way. -/
theorem work (h : Serving act reads how body w P done base inside)
    (hreads : ∀ c, reads c → ∀ ch w r w', act ch c w = some (r, w') → w' = w) {i : ι} {c : C}
    {k : R c → Prog C R α} {r : R c} {v : W} {ch : K} (hi : i ∈ inside)
    (hu : UnderWay act reads how body base P.world.guarded i (.call c k))
    (hact : act ch c P.world.guarded = some (r, v)) :
    Serving act reads how body w
      ⟨{ P.world with guarded := v }, Function.update P.thread i ((k r).closing (how i))⟩ done base
      inside := by
  have hnext : UnderWay act reads how body base v i (k r) := by
    constructor
    · intro hm
      exact (hu.only hm).2 r
    · intro a w' hr
      exact hu.runs a w' (.call ⟨ch, hact⟩ hr)
  have hothers : ∀ j ∈ inside, j ≠ i → v = P.world.guarded := by
    intro j hj hji
    cases hm : how i with
    | read => exact hreads c (hu.only hm).1 ch _ r v hact
    | write =>
      obtain ⟨-, -, hone⟩ := h.alone hi hm
      rw [hone] at hj
      exact absurd (List.mem_singleton.mp hj) hji
  constructor
  · exact h.turns
  · exact h.apart
  · exact h.once
  · obtain ⟨hw, hr, hall, hbase⟩ | hwrite := h.lock
    · left
      exact ⟨hw, hr, hall, (hreads c (hu.only (hall i hi)).1 ch _ r v hact).trans hbase⟩
    · right
      exact hwrite
  · intro j hj hjd
    have hji : j ≠ i := fun he => hj (he ▸ hi)
    exact (Function.update_of_ne hji _ _).trans (h.waiting j hj hjd)
  · intro j hj
    obtain ⟨hjd, p, hp, hup⟩ := h.working j hj
    by_cases hji : j = i
    · subst hji
      exact ⟨hjd, k r, Function.update_self .., hnext⟩
    · refine ⟨hjd, p, (Function.update_of_ne hji _ _).trans hp, ?_⟩
      simp only [hothers j hj hji]
      exact hup
  · intro x hx
    have hxi : x.1 ≠ i := fun he => (h.working i hi).1 (he ▸ List.mem_map_of_mem hx)
    exact (Function.update_of_ne hxi _ _).trans (h.gone x hx)

/-- A program leaves the lock and returns. -/
theorem leave (h : Serving act reads how body w P done base inside) {i : ι} {a : α}
    (hi : i ∈ inside) (hu : UnderWay act reads how body base P.world.guarded i (.pure a)) :
    Serving act reads how body w
      ⟨(how i).left P.world, Function.update P.thread i (.pure a)⟩ (done ++ [(i, a)])
      P.world.guarded (inside.erase i) := by
  have hid : i ∉ done.map Prod.fst := (h.working i hi).1
  have hmem : ∀ j, j ∈ inside.erase i ↔ j ≠ i ∧ j ∈ inside := fun j => h.apart.mem_erase_iff
  constructor
  · exact h.turns.snoc (hu.runs a _ .pure)
  · exact h.apart.erase i
  · simpa [List.nodup_append] using And.intro h.once (fun x y hxy he => hid (by
      rw [← he]
      exact List.mem_map_of_mem hxy))
  · cases hm : how i with
    | read =>
      obtain ⟨hw, hr, hall, -⟩ := h.calm hi hm
      left
      refine ⟨hw, ?_, fun j hj => hall j ((hmem j).mp hj).2, rfl⟩
      rw [List.length_erase_of_mem hi]
      exact congrArg (· - 1) hr
    | write =>
      obtain ⟨-, hz, hone⟩ := h.alone hi hm
      left
      rw [hone, List.erase_cons_head]
      exact ⟨rfl, hz, fun j hj => (by cases hj), rfl⟩
  · intro j hj hjd
    rw [List.map_append, List.mem_append, not_or] at hjd
    have hji : j ≠ i := by simpa using hjd.2
    exact (Function.update_of_ne hji _ _).trans
      (h.waiting j (fun hjm => hj ((hmem j).mpr ⟨hji, hjm⟩)) hjd.1)
  · intro j hj
    obtain ⟨hji, hjm⟩ := (hmem j).mp hj
    obtain ⟨hjd, p, hp, hup⟩ := h.working j hjm
    have hbase : P.world.guarded = base := by
      cases hm : how i with
      | read => exact (h.calm hi hm).2.2.2
      | write =>
        rw [(h.alone hi hm).2.2] at hjm
        exact absurd (List.mem_singleton.mp hjm) hji
    refine ⟨by simp [hji, hjd], p, (Function.update_of_ne hji _ _).trans hp, ?_⟩
    simp only [Access.left_guarded]
    rwa [hbase] at hup ⊢
  · intro x hx
    obtain hx | hx := List.mem_append.mp hx
    · have hxi : x.1 ≠ i := fun he => hid (he ▸ List.mem_map_of_mem hx)
      exact (Function.update_of_ne hxi _ _).trans (h.gone x hx)
    · rw [List.mem_singleton.mp hx]
      exact Function.update_self ..

end Serving

/-- One step of a pool of sections. -/
theorem Serving.step (h : Serving act reads how body w P done base inside)
    (hreads : ∀ c, reads c → ∀ ch w r w', act ch c w = some (r, w') → w' = w)
    (hbody : ∀ i, how i = .read → (body i).Only reads)
    {e : Event ι (Locking C) (Locking.Answer R)} (hs : Step (Env.ofAct (lockedAct act)) P e P') :
    ∃ left base' inside', (departure e).toList = left.map Prod.fst ∧
      Serving act reads how body w P' (done ++ left) base' inside' := by
  cases hs with
  | @call i c k r v hc he =>
    obtain ⟨ch, he⟩ := he
    by_cases hi : i ∈ inside
    · obtain ⟨-, p, hp, hu⟩ := h.working i hi
      cases p with
      | pure a =>
        obtain ⟨rfl, hk⟩ := Prog.call.inj (hp.symm.trans hc)
        cases hk
        obtain ⟨-, rfl⟩ := lockedAct_leave.mp he
        exact ⟨[(i, a)], _, _, by simp, h.leave hi hu⟩
      | call c k =>
        obtain ⟨rfl, hk⟩ := Prog.call.inj (hp.symm.trans hc)
        cases hk
        obtain ⟨hact, hv⟩ := lockedAct_guarded.mp he
        refine ⟨[], base, inside, rfl, ?_⟩
        rw [List.append_nil, hv]
        exact h.work hreads hi hu hact
    · have hd : i ∉ done.map Prod.fst := by
        intro hd
        obtain ⟨x, hx, rfl⟩ := List.mem_map.mp hd
        have hret : P.thread x.1 = .pure x.2 := h.gone x hx
        rw [hc] at hret
        cases hret
      obtain ⟨rfl, hk⟩ := Prog.call.inj ((h.waiting i hi hd).symm.trans hc)
      cases hk
      obtain ⟨hfree, rfl⟩ := lockedAct_enter.mp he
      refine ⟨[], base, i :: inside, by simp, ?_⟩
      rw [List.append_nil]
      exact h.enter hbody hi hd hfree

/-- **Sections come one after the other.** After any run of a pool of sections, those that have
left the lock have returned what they return when they run alone, in the order in which they left
it. -/
theorem Run.serving {tr : List (Event ι (Locking C) (Locking.Answer R))}
    (hreads : ∀ c, reads c → ∀ ch w r w', act ch c w = some (r, w') → w' = w)
    (hbody : ∀ i, how i = .read → (body i).Only reads)
    (hr : Run (Env.ofAct (lockedAct act)) anyStep (sections how body w) tr P) :
    ∃ done base inside, departures tr = done.map Prod.fst ∧
      Serving act reads how body w P done base inside := by
  induction hr with
  | start => exact ⟨[], w, [], rfl, .start⟩
  | @step tr P' P'' e _ _ hs ih =>
    obtain ⟨done, base, inside, htr, h⟩ := ih
    obtain ⟨left, base', inside', hleft, h'⟩ := h.step hreads hbody hs
    refine ⟨done ++ left, base', inside', ?_, h'⟩
    rw [departures_snoc, List.map_append, htr, hleft]

omit [DecidableEq ι] in
/-- A thread has returned when it has left the lock. -/
theorem Serving.returned (h : Serving act reads how body w P done base inside) {i : ι} {a : α} :
    P.Returned i a ↔ (i, a) ∈ done := by
  refine ⟨fun hret => ?_, h.gone (i, a)⟩
  by_cases hd : i ∈ done.map Prod.fst
  · obtain ⟨⟨j, b⟩, hx, hj⟩ := List.mem_map.mp hd
    cases hj
    have hb := (h.gone _ hx).symm.trans hret
    cases hb
    exact hx
  · by_cases hi : i ∈ inside
    · obtain ⟨-, p, hp, -⟩ := h.working i hi
      rw [hret] at hp
      cases p <;> cases hp
    · have hw := h.waiting i hi hd
      rw [hret] at hw
      cases hw

/-- **Nobody is shut out.** While a thread has not returned, some thread has a next step. -/
theorem Serving.progress [Nonempty K] (h : Serving act reads how body w P done base inside)
    (hact : ∀ c w, ∃ ch r w', act ch c w = some (r, w')) {i : ι} (hi : ∀ a, ¬ P.Returned i a) :
    ∃ e P', Step (Env.ofAct (lockedAct act)) P e P' := by
  obtain ⟨ch⟩ := ‹Nonempty K›
  cases hin : inside with
  | nil =>
    subst hin
    have hd : i ∉ done.map Prod.fst := by
      intro hd
      obtain ⟨x, hx, rfl⟩ := List.mem_map.mp hd
      exact hi x.2 (h.gone x hx)
    have hfree : (how i).Free P.world := by
      obtain ⟨hw, hr, -, -⟩ | ⟨-, -, j, hj, -⟩ := h.lock
      · cases how i with
        | read => exact hw
        | write => exact ⟨hw, hr⟩
      · cases hj
    obtain ⟨r, v, he⟩ := lockedAct_can_enter act ch hfree
    exact ⟨_, _, .call (h.waiting i (List.not_mem_nil) hd) ⟨ch, he⟩⟩
  | cons j rest =>
    have hj : j ∈ inside := by simp [hin]
    obtain ⟨-, p, hp, -⟩ := h.working j hj
    cases p with
    | pure a =>
      have hheld : (how j).Held P.world := by
        cases hm : how j with
        | read =>
          obtain ⟨-, hr, -, -⟩ := h.calm hj hm
          rw [Access.Held, hr]
          exact List.length_pos_of_mem hj
        | write => exact (h.alone hj hm).1
      obtain ⟨r, v, he⟩ := lockedAct_can_leave act ch hheld
      exact ⟨_, _, .call hp ⟨ch, he⟩⟩
    | call c k =>
      obtain ⟨ch, r, v, he⟩ := hact c P.world.guarded
      exact ⟨_, ⟨{ P.world with guarded := v }, _⟩, .call hp
        ⟨ch, lockedAct_guarded.mpr ⟨he, rfl⟩⟩⟩

end Pool
end Calls
