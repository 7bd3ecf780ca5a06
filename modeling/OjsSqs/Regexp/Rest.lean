import OjsSqs.Regexp.Lexer

/-! # What is left of a text

Whatever is read of a text, the end of the text is left, and something is read.
So the tokens of a text do not depend on the steps that are allowed for them. -/
namespace Regexp

/-- `r` is what is left of `t` after some of its characters. -/
def Rest (r t : List Char) : Prop := r <:+ t ∧ r.length < t.length

/-- Something is read, and the end of the text is left. -/
def Leaves {α : Type} (f : List Char → Option (α × List Char)) : Prop :=
  ∀ t a r, f t = some (a, r) → Rest r t

section
variable {t u r : List Char} {c : Char}

theorem Rest.cons (h : r <:+ t) : Rest r (c :: t) :=
  ⟨h.trans (List.suffix_cons c t), Nat.lt_succ_of_le h.length_le⟩

theorem Rest.skip (h : Rest r t) : Rest r (c :: t) := .cons h.1

theorem Rest.of_suffix (h : r <:+ u) (hu : Rest u t) : Rest r t :=
  ⟨h.trans hu.1, Nat.lt_of_le_of_lt h.length_le hu.2⟩

theorem Rest.of_tail (h : Rest r t.tail) : Rest r t :=
  ⟨h.1.trans (List.tail_suffix t), Nat.lt_of_lt_of_le h.2 (List.tail_suffix t).length_le⟩

theorem Rest.trans (h : Rest r u) (hu : Rest u t) : Rest r t := .of_suffix h.1 hu

/-! ## Characters and escapes -/

theorem leaves_cut (a b : Char) : Leaves (cut a b) := by
  intro t
  induction t with
  | nil => exact nofun
  | cons c t ih =>
    intro x r h
    cases t with
    | nil => cases h
    | cons d t =>
      simp only [cut] at h
      split at h
      · cases h
        exact .cons (List.suffix_cons d r)
      · obtain ⟨⟨y, r'⟩, hcut, he⟩ := Option.map_eq_some_iff.mp h
        cases he
        exact (ih _ _ hcut).skip

theorem leaves_cutAt (a : Char) : Leaves (cutAt a) := by
  intro t
  induction t with
  | nil => exact nofun
  | cons c t ih =>
    intro x r h
    simp only [cutAt] at h
    split at h
    · cases h
      exact .cons List.suffix_rfl
    · obtain ⟨⟨y, r'⟩, hcut, he⟩ := Option.map_eq_some_iff.mp h
      cases he
      exact (ih _ _ hcut).skip

theorem octalDigits_suffix (n : Nat) (v : Rune) (t : List Char) : (octalDigits n v t).2 <:+ t := by
  induction n generalizing v t with
  | zero => cases t <;> exact List.suffix_rfl
  | succ n ih =>
    cases t with
    | nil => exact List.suffix_rfl
    | cons c t =>
      simp only [octalDigits]
      split
      · exact (ih _ t).trans (List.suffix_cons c t)
      · exact List.suffix_rfl

theorem leaves_bracedHex (v : Option Rune) : Leaves (bracedHex v) := by
  intro t
  induction t generalizing v with
  | nil => exact nofun
  | cons c t ih =>
    intro x r h
    simp only [bracedHex] at h
    split at h
    · obtain ⟨y, -, he⟩ := Option.map_eq_some_iff.mp h
      cases he
      exact .cons List.suffix_rfl
    · split at h
      · exact (ih _ _ _ (Option.ite_none_left_eq_some.mp h).2).skip
      · cases h

theorem leaves_hexEscape : Leaves hexEscape := by
  intro t x r h
  cases t with
  | nil => cases h
  | cons c t =>
    simp only [hexEscape] at h
    split at h
    · exact (leaves_bracedHex none t x r h).skip
    · split at h
      · obtain ⟨y, -, he⟩ := Option.map_eq_some_iff.mp h
        cases he
        exact .cons (List.suffix_cons _ _)
      · cases h

theorem leaves_parseEscape : Leaves parseEscape := by
  intro t x r h
  cases t with
  | nil => cases h
  | cons c t =>
    simp only [parseEscape] at h
    split at h
    · have hr : (octalDigits 2 (c.toNat - '0'.toNat) t).2 = r := congrArg Prod.snd (Option.some.inj h)
      exact .cons (hr ▸ octalDigits_suffix 2 _ t)
    · split at h
      · exact (leaves_hexEscape t x r h).skip
      all_goals first
        | (cases h; exact .cons List.suffix_rfl)
        | skip
      cases (Option.ite_none_right_eq_some.mp h).2
      exact .cons List.suffix_rfl

/-! ## Classes -/

section
variable (U : Unicode)

theorem leaves_parseUnicodeClass (negated : Bool) : Leaves (parseUnicodeClass U negated) := by
  intro t x r h
  cases t with
  | nil => cases h
  | cons c t =>
    simp only [parseUnicodeClass] at h
    split at h
    · split at h
      · rename_i name u hcut
        obtain ⟨g, -, he⟩ := Option.map_eq_some_iff.mp h
        cases he
        exact (leaves_cutAt '}' t _ _ hcut).skip
      · cases h
    · obtain ⟨g, -, he⟩ := Option.map_eq_some_iff.mp h
      cases he
      exact .cons List.suffix_rfl

theorem escapedClass_rest {x : ClassItem} (h : escapedClass U t = some (some (x, r))) : Rest r t := by
  cases t with
  | nil => cases h
  | cons c t =>
    simp only [escapedClass] at h
    split at h
    · exact (leaves_parseUnicodeClass U false t x r (Option.some.inj h)).skip
    · split at h
      · exact (leaves_parseUnicodeClass U true t x r (Option.some.inj h)).skip
      · obtain ⟨g, -, he⟩ := Option.map_eq_some_iff.mp h
        cases he
        exact .cons List.suffix_rfl

theorem leaves_parseClassChar : Leaves parseClassChar := by
  intro t x r h
  cases t with
  | nil => cases h
  | cons c t =>
    simp only [parseClassChar] at h
    split at h
    · exact (leaves_parseEscape t x r h).skip
    · cases h
      exact .cons List.suffix_rfl

theorem leaves_classRange : Leaves classRange := by
  intro t x r h
  rw [classRange] at h
  split at h
  · cases h
  · rename_i lo d c u hlo
    have hrest := leaves_parseClassChar t lo _ hlo
    split at h
    · split at h
      · rename_i hi v hhi
        cases (Option.ite_none_left_eq_some.mp h).2
        exact (leaves_parseClassChar _ hi _ hhi).trans (.of_suffix (List.suffix_cons d _) hrest)
      · cases h
    · cases h
      exact hrest
  · rename_i lo u _ hlo
    cases h
    exact leaves_parseClassChar t lo _ hlo

theorem leaves_classItem : Leaves (classItem U) := by
  intro t x r h
  cases t with
  | nil => cases h
  | cons c u =>
    have hrange : classRange (c :: u) = some (x, r) → Rest r (c :: u) := leaves_classRange _ x r
    simp only [classItem] at h
    split at h
    · split at h
      · rename_i name rest hcut
        obtain ⟨g, -, he⟩ := Option.map_eq_some_iff.mp h
        cases he
        exact .cons ((leaves_cut ':' ']' u.tail _ _ hcut).1.trans (List.tail_suffix u))
      · exact hrange h
    · split at h
      · split at h
        · rename_i item hitem
          exact (escapedClass_rest U (hitem.trans (congrArg some h))).skip
        · exact hrange h
      · exact hrange h

theorem leaves_classItems (n : Nat) (first : Bool) : Leaves (classItems U n first) := by
  intro t
  induction n generalizing t first with
  | zero => exact nofun
  | succ n ih =>
    intro items r h
    rw [classItems] at h
    split at h
    · rename_i hend
      cases h
      cases t with
      | nil => simp at hend
      | cons c t => exact .cons List.suffix_rfl
    · split at h
      · rename_i item u hitem
        obtain ⟨⟨items', v⟩, hrest, he⟩ := Option.map_eq_some_iff.mp h
        cases he
        exact (ih false u _ _ hrest).trans (leaves_classItem U t _ _ hitem)
      · cases h

/-- Every item takes a character, and so does the bracket at the end. -/
theorem classItems_fuel {n m : Nat} {first : Bool} {items : List ClassItem}
    (h : classItems U n first t = some (items, r)) (hm : t.length ≤ m) :
    classItems U m first t = some (items, r) := by
  induction n generalizing t first items m with
  | zero => cases h
  | succ n ih =>
    have hlt := (leaves_classItems U (n + 1) first t items r h).2
    obtain ⟨m, rfl⟩ : ∃ m', m = m' + 1 := ⟨m - 1, by omega⟩
    rw [classItems] at h ⊢
    split at h
    · rw [if_pos ‹_›]
      exact h
    · rw [if_neg ‹_›]
      split at h
      · rename_i item u hitem
        obtain ⟨⟨items', v⟩, hrest, he⟩ := Option.map_eq_some_iff.mp h
        cases he
        have hu := (leaves_classItem U t _ _ hitem).2
        have hmore : classItems U m false u = some (items', r) := ih hrest (by omega)
        rw [hmore]
        rfl
      · cases h

theorem leaves_parseClass : Leaves (parseClass U) := by
  intro t k r h
  rw [parseClass] at h
  obtain ⟨⟨items, u⟩, hitems, he⟩ := Option.map_eq_some_iff.mp h
  cases he
  have hrest := leaves_classItems U _ true _ _ _ hitems
  split at hrest
  · exact hrest.of_tail
  · exact hrest

end

/-! ## Repetitions and groups -/

theorem afterLazy_suffix (t : List Char) : afterLazy t <:+ t := by
  rw [afterLazy]
  split
  · exact List.tail_suffix t
  · exact List.suffix_rfl

theorem leaves_parseInt : Leaves parseInt := by
  intro t n r h
  rw [parseInt] at h
  obtain ⟨hdigits, h⟩ := Option.ite_none_left_eq_some.mp h
  cases h
  refine ⟨List.dropWhile_suffix _, ?_⟩
  have hsplit := congrArg List.length (List.takeWhile_append_dropWhile (p := isDigit) (l := t))
  rw [List.length_append] at hsplit
  have hsome := List.length_pos_of_ne_nil fun hnil => hdigits (.inl hnil)
  omega

theorem leaves_parseRepeat : Leaves parseRepeat := by
  intro t n r h
  rw [parseRepeat] at h
  split at h
  · rename_i min c u hmin
    have hrest := leaves_parseInt t _ _ hmin
    have hu : Rest u t := .of_suffix (List.suffix_cons c u) hrest
    split at h
    · cases h
      exact hu
    · split at h
      · split at h
        · cases h
          exact .of_suffix (List.tail_suffix u) hu
        · split at h
          · rename_i max d v hmax
            cases (Option.ite_none_right_eq_some.mp h).2
            exact .of_suffix (List.suffix_cons d _) ((leaves_parseInt u _ _ hmax).trans hu)
          · cases h
      · cases h
  · cases h

theorem leaves_namedGroup : Leaves namedGroup := by
  intro t k r h
  rw [namedGroup] at h
  split at h
  · rename_i name u hcut
    cases (Option.ite_none_right_eq_some.mp h).2
    exact leaves_cutAt '>' t _ _ hcut
  · cases h

theorem leaves_groupFlags (negated saw : Bool) (changes : List (Flag × Bool)) :
    Leaves (groupFlags negated saw changes) := by
  intro t
  induction t generalizing negated saw changes with
  | nil => exact nofun
  | cons c t ih =>
    intro k r h
    simp only [groupFlags] at h
    split at h
    · exact (ih _ _ _ _ _ h).skip
    · exact (ih _ _ _ _ _ h).skip
    · exact (ih _ _ _ _ _ h).skip
    · exact (ih _ _ _ _ _ h).skip
    · exact (ih _ _ _ _ _ (Option.ite_none_left_eq_some.mp h).2).skip
    · cases (Option.ite_none_left_eq_some.mp h).2
      exact .cons List.suffix_rfl
    · cases (Option.ite_none_left_eq_some.mp h).2
      exact .cons List.suffix_rfl
    · cases h

theorem leaves_parsePerlFlags : Leaves parsePerlFlags := by
  intro t k r h
  rw [parsePerlFlags] at h
  split at h
  · exact (leaves_namedGroup _ _ _ h).of_tail
  · split at h
    · exact (leaves_namedGroup _ _ _ h).of_tail.of_tail
    · exact leaves_groupFlags _ _ _ _ _ _ h

end

/-! ## Tokens -/

section
variable (U : Unicode)

theorem leaves_parseBackslash : Leaves (parseBackslash U) := by
  intro t k r h
  cases t with
  | nil => cases h
  | cons c t =>
    simp only [parseBackslash] at h
    split at h
    all_goals first
      | (cases h; exact .cons List.suffix_rfl)
      | skip
    · cases h
    · split at h
      · rename_i text u hcut
        cases h
        exact (leaves_cut '\\' 'E' t _ _ hcut).skip
      · cases h
        exact .cons (List.nil_suffix)
    · split at h
      · rename_i item hitem
        obtain ⟨⟨x, u⟩, rfl, he⟩ := Option.map_eq_some_iff.mp h
        cases he
        exact escapedClass_rest U hitem
      · obtain ⟨⟨v, u⟩, hescape, he⟩ := Option.map_eq_some_iff.mp h
        cases he
        exact leaves_parseEscape _ _ _ hescape

/-- **A token** takes a character at least. -/
theorem leaves_parseToken : Leaves (parseToken U) := by
  intro t k r h
  cases t with
  | nil => cases h
  | cons c t =>
    simp only [parseToken] at h
    split at h
    · split at h
      · exact .cons ((leaves_parsePerlFlags _ _ _ h).1.trans (List.tail_suffix t))
      · cases h
        exact .cons List.suffix_rfl
    all_goals first
      | (cases h; exact .cons List.suffix_rfl)
      | (cases h; exact .cons (afterLazy_suffix t))
      | skip
    · exact (leaves_parseClass U t k r h).skip
    · split at h
      · rename_i min max u hcounts
        cases (Option.ite_none_right_eq_some.mp h).2
        exact .cons ((afterLazy_suffix u).trans (leaves_parseRepeat t _ _ hcounts).1)
      · cases h
        exact .cons List.suffix_rfl
    · exact (leaves_parseBackslash U t k r h).skip

theorem tokens_fuel {n m : Nat} {t : List Char} {ts : List Token} (h : tokens U n t = some ts)
    (hm : t.length ≤ m) : tokens U m t = some ts := by
  induction n generalizing t ts m with
  | zero =>
    cases t with
    | nil => cases h; cases m <;> rfl
    | cons c t => cases h
  | succ n ih =>
    cases t with
    | nil => cases h; cases m <;> rfl
    | cons c t =>
      obtain ⟨m, rfl⟩ : ∃ m', m = m' + 1 := ⟨m - 1, by simp at hm; omega⟩
      rw [tokens] at h ⊢
      split at h
      · rename_i k r hk
        obtain ⟨ts', hts, rfl⟩ := Option.map_eq_some_iff.mp h
        have hr := (leaves_parseToken U _ _ _ hk).2
        have hmore : tokens U m r = some ts' := ih hts (by omega)
        rw [hmore]
        rfl
      · cases h

end
end Regexp
