import OjsSqs.Regexp.Lexer
import Mathlib.Data.List.Dedup
import Mathlib.Data.Nat.Basic
import Mathlib.Order.Basic

/-! # Expressions and what they match

An expression matches a part of a text between two positions. What follows an
operator in the syntax is a relation on positions; `ends` computes it. -/
namespace Regexp

inductive Expr where
  | empty
  | set (member : Rune → Bool)
  | beginText | endText | beginLine | endLine | wordBoundary | noWordBoundary
  | cat (a b : Expr)
  | alt (a b : Expr)
  | repeats (op : RepeatOp) (a : Expr)

/-- `n` parts, one after the other. -/
def Times (R : Nat → Nat → Prop) : Nat → Nat → Nat → Prop
  | 0, i, j => i = j
  | n + 1, i, j => ∃ k, R i k ∧ Times R n k j

/-- The counts a repetition allows. -/
def RepeatOp.Allows : RepeatOp → Nat → Prop
  | star, _ => True
  | plus, n => 1 ≤ n
  | quest, n => n ≤ 1
  | count min max, n => min ≤ n ∧ ∀ m, max = some m → n ≤ m

def newline : Rune := 10

section
variable (s : List Rune)

/-- The code point before the position, and the one after it, are in the set. -/
def before (member : Rune → Bool) (i : Nat) : Bool := 0 < i && s[i - 1]?.any member
def after (member : Rune → Bool) (i : Nat) : Bool := s[i]?.any member

/-- Assertions about a position. -/
def beginLineAt (i : Nat) : Bool := i = 0 || before s (· == newline) i
def endLineAt (i : Nat) : Bool := i = s.length || after s (· == newline) i
def wordBoundaryAt (i : Nat) : Bool := before s wordRune i != after s wordRune i

/-- The expression matches the part from `i` to `j`. -/
def Expr.Spans : Expr → Nat → Nat → Prop
  | empty, i, j => i = j
  | set member, i, j => after s member i = true ∧ i + 1 = j
  | beginText, i, j => i = 0 ∧ i = j
  | endText, i, j => i = s.length ∧ i = j
  | beginLine, i, j => beginLineAt s i = true ∧ i = j
  | endLine, i, j => endLineAt s i = true ∧ i = j
  | wordBoundary, i, j => wordBoundaryAt s i = true ∧ i = j
  | noWordBoundary, i, j => wordBoundaryAt s i = false ∧ i = j
  | cat a b, i, j => ∃ k, a.Spans i k ∧ b.Spans k j
  | alt a b, i, j => a.Spans i j ∨ b.Spans i j
  | repeats op a, i, j => ∃ n, op.Allows n ∧ Times a.Spans n i j

/-- The whole text matches. -/
def Expr.Full (e : Expr) : Prop := e.Spans s 0 s.length

/-- A part of the text matches. -/
def Expr.Found (e : Expr) : Prop := ∃ i j, i ≤ s.length ∧ e.Spans s i j

end

/-! ## Positions -/

section
variable {s : List Rune} {R : Nat → Nat → Prop} {i j k n m : Nat}

theorem Times.append (h : Times R n i k) (h' : Times R m k j) : Times R (n + m) i j := by
  induction n generalizing i with
  | zero =>
    obtain rfl : i = k := h
    rwa [Nat.zero_add]
  | succ n ih =>
    obtain ⟨k₁, hk, hrest⟩ := h
    rw [Nat.succ_add]
    exact ⟨k₁, hk, ih hrest⟩

theorem Times.split (h : Times R (n + m) i j) : ∃ k, Times R n i k ∧ Times R m k j := by
  induction n generalizing i with
  | zero =>
    rw [Nat.zero_add] at h
    exact ⟨i, rfl, h⟩
  | succ n ih =>
    rw [Nat.succ_add] at h
    obtain ⟨k₁, hk, hrest⟩ := h
    obtain ⟨k, hn, hm⟩ := ih hrest
    exact ⟨k, ⟨k₁, hk, hn⟩, hm⟩

/-- A part of the text begins before it ends, and ends in the text. -/
def Forward (N : Nat) (R : Nat → Nat → Prop) : Prop := ∀ i j, i ≤ N → R i j → i ≤ j ∧ j ≤ N

theorem Forward.times {N : Nat} (hR : Forward N R) (n : Nat) : Forward N (Times R n) := by
  induction n with
  | zero => exact fun i j hi h => ⟨le_of_eq h, h ▸ hi⟩
  | succ n ih =>
    rintro i j hi ⟨k, hk, hrest⟩
    obtain ⟨hik, hkN⟩ := hR i k hi hk
    obtain ⟨hkj, hjN⟩ := ih k j hkN hrest
    exact ⟨hik.trans hkj, hjN⟩

theorem after_lt {member : Rune → Bool} (h : after s member i = true) : i < s.length := by
  rw [after] at h
  by_contra hlt
  rw [List.getElem?_eq_none (Nat.le_of_not_lt hlt)] at h
  cases h

theorem Expr.spans_forward (s : List Rune) (e : Expr) : Forward s.length (e.Spans s) := by
  have hstay : ∀ P : Nat → Prop, Forward s.length fun i j => P i ∧ i = j :=
    fun P i j hi h => ⟨le_of_eq h.2, h.2 ▸ hi⟩
  induction e with
  | empty => exact fun i j hi h => ⟨le_of_eq h, h ▸ hi⟩
  | set member =>
    rintro i j hi ⟨hafter, rfl⟩
    exact ⟨Nat.le_succ i, after_lt hafter⟩
  | beginText => exact hstay _
  | endText => exact hstay _
  | beginLine => exact hstay _
  | endLine => exact hstay _
  | wordBoundary => exact hstay _
  | noWordBoundary => exact hstay _
  | cat a b iha ihb =>
    rintro i j hi ⟨k, ha, hb⟩
    obtain ⟨hik, hkN⟩ := iha i k hi ha
    obtain ⟨hkj, hjN⟩ := ihb k j hkN hb
    exact ⟨hik.trans hkj, hjN⟩
  | alt a b iha ihb => exact fun i j hi h => h.elim (iha i j hi) (ihb i j hi)
  | repeats op a ih =>
    rintro i j hi ⟨n, -, h⟩
    exact ih.times n i j hi h

end

/-! ## The positions where a match can end -/

/-- Where up to `fuel` further parts can end, each of them not empty. -/
def closure (step : Nat → List Nat) : Nat → Nat → List Nat
  | 0, i => [i]
  | fuel + 1, i => i :: (((step i).filter (i < ·)).flatMap (closure step fuel)).dedup

/-- Where `n` parts can end. -/
def timesEnds (step : Nat → List Nat) : Nat → Nat → List Nat
  | 0, i => [i]
  | n + 1, i => ((step i).dedup.flatMap (timesEnds step n)).dedup

/-- Where at most `n` parts can end. -/
def atMost (step : Nat → List Nat) : Nat → Nat → List Nat
  | 0, i => [i]
  | n + 1, i => i :: ((step i).dedup.flatMap (atMost step n)).dedup

section
variable (s : List Rune)

def Expr.ends : Expr → Nat → List Nat
  | empty, i => [i]
  | set member, i => if after s member i then [i + 1] else []
  | beginText, i => if i = 0 then [i] else []
  | endText, i => if i = s.length then [i] else []
  | beginLine, i => if beginLineAt s i then [i] else []
  | endLine, i => if endLineAt s i then [i] else []
  | wordBoundary, i => if wordBoundaryAt s i then [i] else []
  | noWordBoundary, i => if wordBoundaryAt s i = false then [i] else []
  | cat a b, i => (a.ends i).dedup.flatMap b.ends
  | alt a b, i => a.ends i ++ b.ends i
  | repeats .star a, i => closure a.ends (s.length + 1) i
  | repeats .plus a, i => (a.ends i).dedup.flatMap (closure a.ends (s.length + 1))
  | repeats .quest a, i => i :: a.ends i
  | repeats (.count min none) a, i =>
    (timesEnds a.ends min i).flatMap (closure a.ends (s.length + 1))
  | repeats (.count min (some max)) a, i =>
    if max < min then [] else (timesEnds a.ends min i).flatMap (atMost a.ends (max - min))

/-- `MatchString` -/
def Expr.matchString (e : Expr) : Bool :=
  (List.range (s.length + 1)).any fun i => !(e.ends s i).isEmpty

end

section
variable {s : List Rune} {step : Nat → List Nat} {R : Nat → Nat → Prop} {N i j n : Nat}

theorem mem_timesEnds (h : ∀ i j, i ≤ N → (j ∈ step i ↔ R i j)) (hR : Forward N R) (hi : i ≤ N) :
    j ∈ timesEnds step n i ↔ Times R n i j := by
  induction n generalizing i with
  | zero =>
    rw [timesEnds, List.mem_singleton, Times]
    exact eq_comm
  | succ n ih =>
    simp only [timesEnds, List.mem_dedup, List.mem_flatMap, Times]
    refine exists_congr fun k => ?_
    rw [h i k hi]
    exact and_congr_right fun hk => ih (hR i k hi hk).2

theorem mem_atMost (h : ∀ i j, i ≤ N → (j ∈ step i ↔ R i j)) (hR : Forward N R) (hi : i ≤ N) :
    j ∈ atMost step n i ↔ ∃ m ≤ n, Times R m i j := by
  induction n generalizing i with
  | zero =>
    rw [atMost, List.mem_singleton]
    exact ⟨fun hj => ⟨0, le_refl 0, hj.symm⟩, fun ⟨m, hm, ht⟩ => by
      obtain rfl := Nat.le_zero.mp hm
      exact Eq.symm ht⟩
  | succ n ih =>
    simp only [atMost, List.mem_cons, List.mem_dedup, List.mem_flatMap]
    constructor
    · rintro (rfl | ⟨k, hk, hj⟩)
      · exact ⟨0, Nat.zero_le _, rfl⟩
      · have hk := (h i k hi).mp hk
        obtain ⟨m, hm, ht⟩ := (ih (hR i k hi hk).2).mp hj
        exact ⟨m + 1, Nat.succ_le_succ hm, k, hk, ht⟩
    · rintro ⟨m, hm, ht⟩
      cases m with
      | zero => exact .inl (Eq.symm ht)
      | succ m =>
        obtain ⟨k, hk, ht⟩ := ht
        exact .inr ⟨k, (h i k hi).mpr hk,
          (ih (hR i k hi hk).2).mpr ⟨m, Nat.le_of_succ_le_succ hm, ht⟩⟩

/-- Every further part takes one code point at least, so there is an end to them. -/
theorem mem_closure (h : ∀ i j, i ≤ N → (j ∈ step i ↔ R i j)) (hR : Forward N R) (hi : i ≤ N)
    (hfuel : N - i < n) : j ∈ closure step n i ↔ ∃ m, Times R m i j := by
  induction n generalizing i with
  | zero => exact absurd hfuel (Nat.not_lt_zero _)
  | succ n ih =>
    simp only [closure, List.mem_cons, List.mem_dedup, List.mem_flatMap, List.mem_filter,
      decide_eq_true_eq]
    constructor
    · rintro (rfl | ⟨k, ⟨hk, hlt⟩, hj⟩)
      · exact ⟨0, rfl⟩
      · have hk := (h i k hi).mp hk
        have hkN := (hR i k hi hk).2
        obtain ⟨m, ht⟩ := (ih hkN (by omega)).mp hj
        exact ⟨m + 1, k, hk, ht⟩
    · rintro ⟨m, ht⟩
      -- the first part that is not empty
      induction m with
      | zero => exact .inl (Eq.symm ht)
      | succ m ihm =>
        obtain ⟨k, hk, ht⟩ := ht
        obtain ⟨hik, hkN⟩ := hR i k hi hk
        rcases Nat.eq_or_lt_of_le hik with rfl | hlt
        · exact ihm ht
        · exact .inr ⟨k, ⟨(h i k hi).mpr hk, hlt⟩, (ih hkN (by omega)).mpr ⟨m, ht⟩⟩

end

theorem mem_then {l : List Nat} {f : Nat → List Nat} {R : Nat → Prop} (Q : Nat → Nat → Prop) {j : Nat}
    (hl : ∀ k, k ∈ l ↔ R k) (hf : ∀ k, R k → (j ∈ f k ↔ Q k j)) :
    j ∈ l.flatMap f ↔ ∃ k, R k ∧ Q k j := by
  rw [List.mem_flatMap]
  refine exists_congr fun k => ?_
  rw [hl k]
  exact and_congr_right (hf k)

theorem mem_stay (P : Prop) [Decidable P] (i j : Nat) : j ∈ (if P then [i] else []) ↔ P ∧ i = j := by
  split
  · rename_i hP
    rw [List.mem_singleton]
    exact ⟨fun hj => ⟨hP, hj.symm⟩, fun h => h.2.symm⟩
  · rename_i hP
    exact ⟨fun hj => absurd hj List.not_mem_nil, fun h => absurd h.1 hP⟩

/-- **The positions `ends` finds** are those where a match ends. -/
theorem Expr.mem_ends (s : List Rune) (e : Expr) {i j : Nat} (hi : i ≤ s.length) :
    j ∈ e.ends s i ↔ e.Spans s i j := by
  induction e generalizing i j with
  | empty => exact List.mem_singleton.trans eq_comm
  | set member =>
    rw [ends, Spans]
    split
    · rename_i hafter
      rw [List.mem_singleton]
      exact ⟨fun hj => ⟨hafter, hj.symm⟩, fun h => h.2.symm⟩
    · rename_i hafter
      exact ⟨fun hj => absurd hj List.not_mem_nil, fun h => absurd h.1 hafter⟩
  | beginText => exact mem_stay _ i j
  | endText => exact mem_stay _ i j
  | beginLine => exact mem_stay _ i j
  | endLine => exact mem_stay _ i j
  | wordBoundary => exact mem_stay _ i j
  | noWordBoundary => exact mem_stay _ i j
  | cat a b iha ihb =>
    exact mem_then (b.Spans s) (fun k => List.mem_dedup.trans (iha hi)) fun k hk => ihb (a.spans_forward s i k hi hk).2
  | alt a b iha ihb => exact List.mem_append.trans (or_congr (iha hi) (ihb hi))
  | repeats op a ih =>
    have hstep : ∀ i j, i ≤ s.length → (j ∈ a.ends s i ↔ a.Spans s i j) := fun i j hi => ih hi
    have hforward := a.spans_forward s
    have hclosure : ∀ {k}, k ≤ s.length →
        (j ∈ closure (a.ends s) (s.length + 1) k ↔ ∃ m, Times (a.Spans s) m k j) := fun hk =>
      mem_closure hstep hforward hk (by omega)
    cases op with
    | star =>
      refine (hclosure hi).trans (exists_congr fun m => ?_)
      simp [RepeatOp.Allows]
    | plus =>
      refine (mem_then (fun k j => ∃ m, Times (a.Spans s) m k j) (fun k => List.mem_dedup.trans (ih hi)) fun k hk =>
        hclosure (hforward i k hi hk).2).trans ⟨?_, ?_⟩
      · rintro ⟨k, hk, m, ht⟩
        exact ⟨m + 1, Nat.succ_le_succ (Nat.zero_le m), k, hk, ht⟩
      · rintro ⟨m, hm, ht⟩
        obtain ⟨m, rfl⟩ := Nat.exists_eq_succ_of_ne_zero (Nat.ne_of_gt hm)
        obtain ⟨k, hk, ht⟩ := ht
        exact ⟨k, hk, m, ht⟩
    | quest =>
      refine List.mem_cons.trans ⟨?_, ?_⟩
      · rintro (rfl | hj)
        · exact ⟨0, Nat.zero_le 1, rfl⟩
        · exact ⟨1, le_refl 1, j, (ih hi).mp hj, rfl⟩
      · rintro ⟨m, hm, ht⟩
        match m, hm, ht with
        | 0, _, ht => exact .inl (Eq.symm ht)
        | 1, _, ⟨k, hk, ht⟩ =>
          obtain rfl : k = j := ht
          exact .inr ((ih hi).mpr hk)
    | count min max =>
      have hmin : ∀ k, k ∈ timesEnds (a.ends s) min i ↔ Times (a.Spans s) min i k := fun k =>
        mem_timesEnds hstep hforward hi
      have hpart : ∀ k, Times (a.Spans s) min i k → k ≤ s.length := fun k hk =>
        (hforward.times min i k hi hk).2
      cases max with
      | none =>
        refine (mem_then (fun k j => ∃ m, Times (a.Spans s) m k j) hmin fun k hk =>
          hclosure (hpart k hk)).trans ⟨?_, ?_⟩
        · rintro ⟨k, hk, m, ht⟩
          exact ⟨min + m, ⟨Nat.le_add_right min m, fun _ h => by cases h⟩, hk.append ht⟩
        · rintro ⟨n, ⟨hn, -⟩, ht⟩
          obtain ⟨m, rfl⟩ := Nat.exists_eq_add_of_le hn
          obtain ⟨k, hk, ht⟩ := Times.split ht
          exact ⟨k, hk, m, ht⟩
      | some max =>
        rw [ends]
        split
        · rename_i hlt
          refine ⟨fun h => absurd h List.not_mem_nil, fun ⟨n, ⟨hn, hmax⟩, _⟩ => ?_⟩
          exact absurd ((hn.trans (hmax max rfl)).trans_lt hlt) (lt_irrefl _)
        · rename_i hle
          refine (mem_then (fun k j => ∃ m ≤ max - min, Times (a.Spans s) m k j) hmin fun k hk =>
            mem_atMost hstep hforward (hpart k hk)).trans ⟨?_, ?_⟩
          · rintro ⟨k, hk, m, hm, ht⟩
            refine ⟨min + m, ⟨Nat.le_add_right min m, fun _ h => ?_⟩, hk.append ht⟩
            cases h
            omega
          · rintro ⟨n, ⟨hn, hmax⟩, ht⟩
            obtain ⟨m, rfl⟩ := Nat.exists_eq_add_of_le hn
            obtain ⟨k, hk, ht⟩ := Times.split ht
            have hm := hmax max rfl
            exact ⟨k, hk, m, by omega, ht⟩

instance (s : List Rune) (e : Expr) : Decidable (e.Full s) :=
  decidable_of_iff _ (e.mem_ends s (Nat.zero_le _))

/-- **`MatchString` finds a match** exactly when some part of the text matches. -/
theorem Expr.matchString_iff (s : List Rune) (e : Expr) : e.matchString s = true ↔ e.Found s := by
  rw [matchString, List.any_eq_true]
  constructor
  · rintro ⟨i, hi, hne⟩
    have hi : i ≤ s.length := Nat.le_of_lt_succ (List.mem_range.mp hi)
    obtain ⟨j, hj⟩ := List.exists_mem_of_ne_nil (e.ends s i) fun h => by rw [h] at hne; cases hne
    exact ⟨i, j, hi, (e.mem_ends s hi).mp hj⟩
  · rintro ⟨i, j, hi, h⟩
    refine ⟨i, List.mem_range.mpr (Nat.lt_succ_of_le hi), ?_⟩
    have hj := (e.mem_ends s hi).mpr h
    cases hends : e.ends s i with
    | nil => rw [hends] at hj; cases hj
    | cons k ks => rfl

end Regexp
