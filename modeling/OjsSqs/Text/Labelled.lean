import Mathlib.Data.List.Basic
import Mathlib.Data.List.Infix

/-! # Labelled pieces written one after the other

A text is made of pieces, each a label and a value, with nothing between them
and nothing escaped. Two lists of pieces give one text exactly when they are the
same, or when a value goes on where the other one ends and holds the labels
that follow there. -/
namespace Text

variable {K α : Type}

/-- The labels tell each other apart at the beginning of a text. -/
structure Labels (label : K → List α) : Prop where
  ne_nil : ∀ k, label k ≠ []
  apart : ∀ {k k' s s'}, label k ++ s = label k' ++ s' → k = k'

/-- The pieces, one after the other. -/
def write (label : K → List α) (pieces : List (K × List α)) : List α :=
  pieces.flatMap fun p => label p.1 ++ p.2

/-- Up to some piece the two lists are the same. There the value in the second
one runs on with a text that the rest of the first one begins with. -/
def RunsOver (label : K → List α) (l l' : List (K × List α)) : Prop :=
  ∃ c k v d r r', l = c ++ (k, v) :: r ∧ l' = c ++ (k, v ++ d) :: r' ∧ d ≠ [] ∧
    write label r = d ++ write label r'

section
variable {label : K → List α} {l l' : List (K × List α)}

@[simp] theorem write_nil : write label [] = [] := rfl

@[simp] theorem write_cons (p : K × List α) :
    write label (p :: l) = label p.1 ++ (p.2 ++ write label l) := by
  rw [write, List.flatMap_cons, List.append_assoc]
  rfl

theorem write_append : write label (l ++ l') = write label l ++ write label l' :=
  List.flatMap_append

theorem write_ne_nil (h : Labels label) (p : K × List α) : write label (p :: l) ≠ [] := by
  rw [write_cons]
  exact List.append_ne_nil_of_left_ne_nil (h.ne_nil p.1) _

theorem RunsOver.cons (p : K × List α) : RunsOver label l l' → RunsOver label (p :: l) (p :: l')
  | ⟨c, k, v, d, r, r', hl, hl', hd, hr⟩ => ⟨p :: c, k, v, d, r, r', by rw [hl, List.cons_append],
      by rw [hl', List.cons_append], hd, hr⟩

theorem RunsOver.write_eq : RunsOver label l l' → write label l = write label l'
  | ⟨c, k, v, d, r, r', hl, hl', _, hr⟩ => by
    rw [hl, hl', write_append, write_append, write_cons, write_cons, hr, List.append_assoc]

/-- The one way in which two lists of pieces give one text. -/
theorem write_eq_iff (h : Labels label) :
    write label l = write label l' ↔ l = l' ∨ RunsOver label l l' ∨ RunsOver label l' l := by
  constructor
  · intro hw
    induction l generalizing l' with
    | nil =>
      cases l' with
      | nil => exact .inl rfl
      | cons p l' => exact absurd hw.symm (write_ne_nil h p)
    | cons p l ih =>
      cases l' with
      | nil => exact absurd hw (write_ne_nil h p)
      | cons p' l' =>
        obtain ⟨k, v⟩ := p
        obtain ⟨k', v'⟩ := p'
        rw [write_cons, write_cons] at hw
        obtain rfl : k = k' := h.apart hw
        have hrest := List.append_cancel_left hw
        -- one of the two values is the beginning of the other
        rcases List.append_eq_append_iff.mp hrest with ⟨d, hv, hr⟩ | ⟨d, hv, hr⟩
        · obtain rfl : v' = v ++ d := hv
          obtain rfl | hd := eq_or_ne d []
          · rw [List.append_nil]
            exact (ih hr).imp (fun he => by rw [he]) (Or.imp (.cons _) (.cons _))
          · exact .inr (.inl ⟨[], k, v, d, l, l', rfl, rfl, hd, hr⟩)
        · obtain rfl : v = v' ++ d := hv
          obtain rfl | hd := eq_or_ne d []
          · rw [List.append_nil]
            exact (ih hr.symm).imp (fun he => by rw [he]) (Or.imp (.cons _) (.cons _))
          · exact .inr (.inr ⟨[], k, v', d, l', l, rfl, rfl, hd, hr⟩)
  · rintro (rfl | hover | hover)
    exacts [rfl, hover.write_eq, hover.write_eq.symm]

/-- Where both lists give a key the same value, no value runs over. -/
theorem not_runsOver (h : ∀ k v v', (k, v) ∈ l → (k, v') ∈ l' → v = v') :
    ¬ RunsOver label l l' := by
  rintro ⟨c, k, v, d, r, r', rfl, rfl, hd, -⟩
  have hv := h k v (v ++ d) (by simp) (by simp)
  exact hd (List.self_eq_append_right.mp hv)

end

/-! ## Texts that a separator divides

Two texts are written one after the other with a separator between them. When
the first of the two does not hold the separator, the first separator is the one
between them; when the second does not, it is the last one. -/

section
variable {α : Type} {c : α} {a b u t : List α}

/-- The text in front of the first separator, and the rest after it. -/
theorem first_separator (ha : c ∉ a) (hb : c ∉ b) (h : a ++ c :: u = b ++ c :: t) :
    a = b ∧ u = t := by
  induction a generalizing b with
  | nil =>
    cases b with
    | nil => exact ⟨rfl, (List.cons.inj h).2⟩
    | cons y b => exact absurd (List.mem_cons.mpr (.inl (List.cons.inj h).1)) hb
  | cons x a ih =>
    cases b with
    | nil => exact absurd (List.mem_cons.mpr (.inl (List.cons.inj h).1.symm)) ha
    | cons y b =>
      obtain ⟨hxy, hrest⟩ := List.cons.inj h
      obtain ⟨hab, hut⟩ := ih (List.not_mem_of_not_mem_cons ha) (List.not_mem_of_not_mem_cons hb) hrest
      exact ⟨by rw [hxy, hab], hut⟩

/-- The text in front of the last separator, and the rest after it. -/
theorem last_separator (hu : c ∉ u) (ht : c ∉ t) (h : a ++ c :: u = b ++ c :: t) :
    a = b ∧ u = t := by
  have hr := congrArg List.reverse h
  simp only [List.reverse_append, List.reverse_cons, List.append_assoc, List.singleton_append] at hr
  obtain ⟨hut, hab⟩ := first_separator (by rwa [List.mem_reverse]) (by rwa [List.mem_reverse]) hr
  exact ⟨List.reverse_injective hab, List.reverse_injective hut⟩

/-- A text with a separator at its end, as the beginning of another one. -/
theorem begins_separator (ha : c ∉ a) (hb : c ∉ b) : a ++ [c] <+: b ++ c :: t ↔ a = b := by
  constructor
  · rintro ⟨u, hu⟩
    rw [List.append_assoc] at hu
    exact (first_separator ha hb hu).1
  · rintro rfl
    exact ⟨t, by rw [List.append_assoc, List.singleton_append]⟩

end

end Text
