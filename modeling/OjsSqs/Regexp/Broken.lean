import OjsSqs.Regexp.Anchors
import OjsSqs.Regexp.Rest

/-! # Texts without tokens

A dollar sign behind a text does not complete it: where the text is not made of
tokens, it is not with the dollar sign. Only a backslash waits for a character. -/
namespace Regexp

/-- What is read with the dollar sign is read without it, or takes it. -/
def Returns {α : Type} (f : List Char → Option (α × List Char)) : Prop :=
  ∀ t a r, f (t ++ ['$']) = some (a, r) → r = [] ∨ ∃ r', r = r' ++ ['$'] ∧ f t = some (a, r')

section
variable {t r : List Char}

theorem returns_classRange : Returns classRange := by
  intro t a r h
  rw [classRange] at h ⊢
  by_cases ht : t = [] ∨ t = ['\\']
  · have hdollar : parseClassChar (t ++ ['$']) = some ('$'.toNat, []) := by
      rcases ht with rfl | rfl <;> rfl
    rw [hdollar] at h
    cases h
    exact .inl rfl
  · rw [not_or] at ht
    rw [parseClassChar_append ht.1 ht.2] at h
    cases hlo : parseClassChar t with
    | none => rw [hlo] at h; cases h
    | some x =>
      obtain ⟨lo, u⟩ := x
      rw [hlo] at h
      simp only [Option.map_some] at h
      rcases u with _ | ⟨d, _ | ⟨c, u⟩⟩
      · cases h
        exact .inr ⟨[], rfl, rfl⟩
      · simp only [List.cons_append, List.nil_append] at h
        split at h
        · have hdollar : parseClassChar ['$'] = some ('$'.toNat, []) := rfl
          rw [hdollar] at h
          cases (Option.ite_none_left_eq_some.mp h).2
          exact .inl rfl
        · cases h
          exact .inr ⟨[d], rfl, rfl⟩
      · simp only [List.cons_append] at h ⊢
        split at h
        · rw [if_pos ‹_›]
          by_cases hcu : c :: u = ['\\']
          · obtain ⟨rfl, rfl⟩ := List.cons.inj hcu
            have hdollar : parseClassChar ['\\', '$'] = some ('$'.toNat, []) := rfl
            rw [List.nil_append, hdollar] at h
            cases (Option.ite_none_left_eq_some.mp h).2
            exact .inl rfl
          · have hhi := parseClassChar_append (List.cons_ne_nil c u) hcu
            rw [List.cons_append] at hhi
            rw [hhi] at h
            cases hmax : parseClassChar (c :: u) with
            | none => rw [hmax] at h; cases h
            | some y =>
              obtain ⟨hi, v⟩ := y
              rw [hmax] at h
              obtain ⟨hlt, h⟩ := Option.ite_none_left_eq_some.mp h
              cases h
              exact .inr ⟨v, rfl, if_neg hlt⟩
        · cases h
          exact .inr ⟨d :: c :: u, rfl, if_neg ‹_›⟩

variable (U : Unicode)

theorem returns_classItem : Returns (classItem U) := by
  intro t a r h
  cases t with
  | nil =>
    cases h
    exact .inl rfl
  | cons c u =>
    have hrange := returns_classRange (c :: u) a r
    simp only [List.cons_append, classItem] at h hrange ⊢
    by_cases hname : c = '[' ∧ u.head? = some ':'
    · rw [if_pos ⟨hname.1, head?_append hname.2⟩, tail_append hname.2, cut_append (by decide)] at h
      rw [if_pos hname]
      cases hcut : cut ':' ']' u.tail with
      | none =>
        rw [hcut] at h
        exact hrange h
      | some x =>
        rw [hcut] at h
        obtain ⟨g, hg, h⟩ := Option.map_eq_some_iff.mp h
        cases h
        exact .inr ⟨x.2, rfl, by simp only [hg, Option.map_some]⟩
    · rw [if_neg fun hn => head?_append_ne (by decide) (fun hu => hname ⟨hn.1, hu⟩) hn.2] at h
      rw [if_neg hname]
      split at h
      · rw [if_pos ‹_›]
        rw [escapedClass_append] at h
        cases hc : escapedClass U u with
        | none =>
          rw [hc] at h
          exact hrange h
        | some item =>
          rw [hc] at h
          obtain ⟨⟨x, v⟩, rfl, h⟩ := Option.map_eq_some_iff.mp h
          cases h
          exact .inr ⟨v, rfl, rfl⟩
      · rw [if_neg ‹_›]
        exact hrange h

theorem returns_classItems {n : Nat} {first : Bool} {items : List ClassItem}
    (h : classItems U n first (t ++ ['$']) = some (items, r)) :
    ∃ r', r = r' ++ ['$'] ∧ classItems U n first t = some (items, r') := by
  induction n generalizing t first items with
  | zero => cases h
  | succ n ih =>
    rw [classItems] at h ⊢
    by_cases hend : first = false ∧ t.head? = some ']'
    · rw [if_pos (by simp [hend.1, head?_append hend.2]), tail_append hend.2] at h
      cases h
      exact ⟨t.tail, rfl, if_pos (by simp [hend.1, hend.2])⟩
    · have hend' : ¬ (!first && decide ((t ++ ['$']).head? = some ']')) = true := by
        simp only [Bool.and_eq_true, decide_eq_true_eq, Bool.not_eq_true', not_and] at hend ⊢
        exact fun hf => head?_append_ne (by decide) (hend hf)
      rw [if_neg hend'] at h
      rw [if_neg (by simpa using hend)]
      split at h
      · rename_i item u hitem
        obtain ⟨⟨items', v⟩, hrest, he⟩ := Option.map_eq_some_iff.mp h
        cases he
        rcases returns_classItem U t _ _ hitem with rfl | ⟨u', rfl, hitem'⟩
        · -- the dollar sign is taken, and there is no bracket behind it
          have hnil : classItems U n false [] = none := by cases n <;> rfl
          rw [hnil] at hrest
          cases hrest
        · obtain ⟨v', rfl, hrest'⟩ := ih hrest
          exact ⟨v', rfl, by simp only [hitem', hrest', Option.map_some]⟩
      · cases h

theorem returns_parseClass {k : Token} (h : parseClass U (t ++ ['$']) = some (k, r)) :
    ∃ r', r = r' ++ ['$'] ∧ parseClass U t = some (k, r') := by
  have hfuel : ∀ {u items v}, classItems U ((u ++ ['$']).length + 1) true (u ++ ['$']) = some (items, v) →
      ∃ v', v = v' ++ ['$'] ∧ classItems U (u.length + 1) true u = some (items, v') := by
    intro u items v hitems
    obtain ⟨v', rfl, hitems'⟩ := returns_classItems U hitems
    exact ⟨v', rfl, classItems_fuel U hitems' (Nat.le_succ _)⟩
  rw [parseClass] at h ⊢
  obtain ⟨⟨items, u⟩, hitems, h⟩ := Option.map_eq_some_iff.mp h
  cases h
  by_cases hneg : t.head? = some '^'
  · simp only [hneg, head?_append hneg, tail_append hneg, decide_true, if_true] at hitems ⊢
    obtain ⟨v, rfl, hitems'⟩ := hfuel hitems
    exact ⟨v, rfl, by rw [hitems']; rfl⟩
  · simp only [hneg, head?_append_ne (by decide) hneg, decide_false, if_false] at hitems ⊢
    obtain ⟨v, rfl, hitems'⟩ := hfuel hitems
    exact ⟨v, rfl, by rw [hitems']; rfl⟩

/-- An open quotation takes the dollar sign, and is a quotation without it. -/
theorem returns_parseBackslash {k : Token} (ht : t ≠ [])
    (h : parseBackslash U (t ++ ['$']) = some (k, r)) :
    (∃ k', parseBackslash U t = some (k', [])) ∨
      ∃ r', r = r' ++ ['$'] ∧ parseBackslash U t = some (k, r') := by
  cases t with
  | nil => exact absurd rfl ht
  | cons c t =>
    simp only [List.cons_append, parseBackslash] at h ⊢
    split at h
    · cases h
      exact .inr ⟨t, rfl, rfl⟩
    · cases h
      exact .inr ⟨t, rfl, rfl⟩
    · cases h
      exact .inr ⟨t, rfl, rfl⟩
    · cases h
    · rw [cut_append (by decide)] at h
      cases hcut : cut '\\' 'E' t with
      | none => exact .inl ⟨_, rfl⟩
      | some x =>
        rw [hcut] at h
        cases h
        exact .inr ⟨x.2, rfl, rfl⟩
    · cases h
      exact .inr ⟨t, rfl, rfl⟩
    · have hclass := escapedClass_append U (c :: t)
      have hescape := parseEscape_append (List.cons_ne_nil c t)
      rw [List.cons_append] at hclass hescape
      rw [hclass, hescape] at h
      cases hc : escapedClass U (c :: t) with
      | none =>
        rw [hc] at h
        cases he : parseEscape (c :: t) with
        | none => rw [he] at h; cases h
        | some x =>
          rw [he] at h
          cases h
          exact .inr ⟨x.2, rfl, rfl⟩
      | some item =>
        rw [hc] at h
        cases item with
        | none => cases h
        | some x =>
          cases h
          exact .inr ⟨x.2, rfl, rfl⟩

theorem returns_parseToken {k : Token} (ht : t ≠ []) (hlast : t.getLast? ≠ some '\\')
    (h : parseToken U (t ++ ['$']) = some (k, r)) :
    (∃ k', parseToken U t = some (k', [])) ∨ ∃ r', r = r' ++ ['$'] ∧ parseToken U t = some (k, r') := by
  cases t with
  | nil => exact absurd rfl ht
  | cons c t =>
    simp only [List.cons_append, parseToken] at h ⊢
    split at h
    · refine .inr ?_
      by_cases hq : t.head? = some '?'
      · rw [if_pos (head?_append hq), tail_append hq, parsePerlFlags_append] at h
        rw [if_pos hq]
        obtain ⟨⟨k', v⟩, hflags, h⟩ := Option.map_eq_some_iff.mp h
        cases h
        exact ⟨v, rfl, hflags⟩
      · rw [if_neg (head?_append_ne (by decide) hq)] at h
        cases h
        exact ⟨t, rfl, if_neg hq⟩
    all_goals first
      | (cases h; exact .inr ⟨t, rfl, rfl⟩)
      | (cases h; exact .inr ⟨afterLazy t, afterLazy_append t, rfl⟩)
      | skip
    · exact .inr (returns_parseClass U h)
    · refine .inr ?_
      rw [parseRepeat_append] at h
      cases hr : parseRepeat t with
      | none =>
        rw [hr] at h
        cases h
        exact ⟨t, rfl, rfl⟩
      | some x =>
        rw [hr] at h
        simp only [Option.map_some] at h
        obtain ⟨hv, h⟩ := Option.ite_none_right_eq_some.mp h
        cases h
        exact ⟨afterLazy x.2, afterLazy_append _, if_pos hv⟩
    · exact returns_parseBackslash U (fun hnil => hlast (by rw [hnil]; rfl)) h

/-- **The tokens of a text with a dollar sign** are there only if those of the text
are, unless a backslash is at its end. -/
theorem tokens_broken {t : List Char} (hlast : t.getLast? ≠ some '\\')
    (h : tokens U t.length t = none) : tokens U (t.length + 1) (t ++ ['$']) = none := by
  have htokens : ∀ n t ts, t.getLast? ≠ some '\\' → tokens U n (t ++ ['$']) = some ts →
      ∃ ts', tokens U n t = some ts' := by
    intro n
    induction n with
    | zero =>
      intro t ts _ h
      cases t <;> cases h
    | succ n ih =>
      intro t ts hlast h
      cases t with
      | nil => exact ⟨[], rfl⟩
      | cons c t =>
        rw [List.cons_append, tokens] at h
        split at h
        · rename_i k r hk
          obtain ⟨ts', hts, rfl⟩ := Option.map_eq_some_iff.mp h
          rcases returns_parseToken U (List.cons_ne_nil c t) hlast hk with ⟨k', hk'⟩ | ⟨r', rfl, hk'⟩
          · have hnil : tokens U n [] = some [] := by cases n <;> rfl
            exact ⟨[k'], by rw [tokens, hk']; simp only [hnil, Option.map_some]⟩
          · have hr' : r'.getLast? ≠ some '\\' := fun he => by
              obtain ⟨u, hu⟩ := (leaves_parseToken U _ _ _ hk').1
              rw [← hu, List.getLast?_append, he] at hlast
              exact hlast rfl
            obtain ⟨ts'', hts''⟩ := ih r' ts' hr' hts
            exact ⟨k :: ts'', by rw [tokens, hk']; simp only [hts'', Option.map_some]⟩
        · cases h
  rw [Option.eq_none_iff_forall_ne_some]
  intro ts hts
  obtain ⟨ts', hts'⟩ := htokens _ t ts hlast hts
  rw [tokens_fuel U hts' (le_refl _)] at h
  cases h

end
end Regexp
