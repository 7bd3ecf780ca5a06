import OjsSqs.Regexp.Parser

/-! # A pattern between anchors

A text is read as `^`, the text and `$`, without a group around it. What is read
of the text stays the same: the first anchor goes to its first alternative, and
the last one to its last alternative, or into a quotation that is still open. -/
namespace Regexp

/-! ## One more character -/

/-- What is read of a text is read of it with a dollar sign behind it. -/
def Extends {α : Type} (f : List Char → Option (α × List Char)) : Prop :=
  ∀ t a r, f t = some (a, r) → f (t ++ ['$']) = some (a, r ++ ['$'])

section
variable {t r : List Char}

theorem cut_append {a b : Char} (hb : b ≠ '$') :
    cut a b (t ++ ['$']) = (cut a b t).map fun (x, r) => (x, r ++ ['$']) := by
  induction t with
  | nil => rfl
  | cons c t ih =>
    cases t with
    | nil =>
      simp only [List.cons_append, List.nil_append, cut]
      rw [if_neg fun h => hb h.2.symm]
      rfl
    | cons d t =>
      simp only [List.cons_append] at ih ⊢
      simp only [cut]
      split
      · rfl
      · rw [ih]
        cases cut a b (d :: t) <;> rfl

theorem cutAt_append {a : Char} (ha : a ≠ '$') :
    cutAt a (t ++ ['$']) = (cutAt a t).map fun (x, r) => (x, r ++ ['$']) := by
  induction t with
  | nil =>
    simp only [List.nil_append, cutAt]
    rw [if_neg ha.symm]
    rfl
  | cons c t ih =>
    simp only [List.cons_append, cutAt]
    split
    · rfl
    · rw [ih]
      cases cutAt a t <;> rfl

theorem octalDigits_append (n : Nat) (v : Rune) (t : List Char) :
    octalDigits n v (t ++ ['$']) = ((octalDigits n v t).1, (octalDigits n v t).2 ++ ['$']) := by
  induction n generalizing v t with
  | zero => cases t <;> rfl
  | succ n ih =>
    cases t with
    | nil => rfl
    | cons c t =>
      simp only [List.cons_append, octalDigits]
      split
      · exact ih _ t
      · rfl

theorem bracedHex_append (v : Option Rune) (t : List Char) :
    bracedHex v (t ++ ['$']) = (bracedHex v t).map fun (x, r) => (x, r ++ ['$']) := by
  induction t generalizing v with
  | nil => rfl
  | cons c t ih =>
    simp only [List.cons_append, bracedHex]
    split
    · cases v <;> rfl
    · cases unhex c with
      | none => rfl
      | some d =>
        simp only
        split
        · rfl
        · exact ih _

theorem head?_append {c : Char} (h : t.head? = some c) : (t ++ ['$']).head? = some c := by
  cases t with
  | nil => cases h
  | cons d t => exact h

theorem head?_append_ne {c : Char} (hc : c ≠ '$') (h : t.head? ≠ some c) :
    (t ++ ['$']).head? ≠ some c := by
  cases t with
  | nil => exact fun he => hc (Option.some.inj he).symm
  | cons d t => exact h

theorem tail_append {c : Char} (h : t.head? = some c) : (t ++ ['$']).tail = t.tail ++ ['$'] := by
  cases t with
  | nil => cases h
  | cons d t => rfl

theorem hexEscape_append (t : List Char) :
    hexEscape (t ++ ['$']) = (hexEscape t).map fun (x, r) => (x, r ++ ['$']) := by
  cases t with
  | nil => rfl
  | cons c t =>
    simp only [List.cons_append, hexEscape]
    split
    · exact bracedHex_append none t
    · cases unhex c with
      | none => rfl
      | some x => cases t with
        | nil => rfl
        | cons d t =>
          simp only [List.cons_append]
          cases unhex d <;> rfl

/-- A backslash that nothing follows takes the dollar sign. -/
theorem parseEscape_append (ht : t ≠ []) :
    parseEscape (t ++ ['$']) = (parseEscape t).map fun (x, r) => (x, r ++ ['$']) := by
  cases t with
  | nil => exact absurd rfl ht
  | cons c t =>
    have hoctal : (t ++ ['$']).head?.any isOctal = t.head?.any isOctal := by
      cases t <;> rfl
    simp only [List.cons_append, parseEscape]
    rw [hoctal]
    split
    · rw [octalDigits_append]
      rfl
    · split
      · exact hexEscape_append t
      all_goals first
        | rfl
        | skip
      split <;> rfl

theorem extends_parseEscape : Extends parseEscape := by
  intro t a r h
  cases t with
  | nil => cases h
  | cons c t =>
    rw [parseEscape_append (List.cons_ne_nil c t), h]
    rfl

section
variable (U : Unicode)

theorem parseUnicodeClass_append (negated : Bool) (t : List Char) :
    parseUnicodeClass U negated (t ++ ['$']) =
      (parseUnicodeClass U negated t).map fun (x, r) => (x, r ++ ['$']) := by
  cases t with
  | nil =>
    have hnone : unicodeGroup U negated ['$'] = none := by
      have htable : U.table (String.ofList ['$']) = none := U.noDollar
      rw [unicodeGroup, htable]
      · rfl
      · exact nofun
    simp [parseUnicodeClass, hnone]
  | cons c t =>
    simp only [List.cons_append, parseUnicodeClass]
    split
    · rw [cutAt_append (by decide)]
      cases cutAt '}' t with
      | none => rfl
      | some x =>
        simp only [Option.map_some]
        cases unicodeGroup U negated x.1 <;> rfl
    · cases unicodeGroup U negated [c] <;> rfl

theorem escapedClass_append (t : List Char) :
    escapedClass U (t ++ ['$']) =
      (escapedClass U t).map fun item => item.map fun (x, r) => (x, r ++ ['$']) := by
  cases t with
  | nil => rfl
  | cons c t =>
    simp only [List.cons_append, escapedClass]
    split
    · rw [parseUnicodeClass_append]
      rfl
    · split
      · rw [parseUnicodeClass_append]
        rfl
      · cases perlGroup c <;> rfl

theorem extends_parseClassChar : Extends parseClassChar := by
  intro t a r h
  cases t with
  | nil => cases h
  | cons c t =>
    simp only [List.cons_append, parseClassChar] at h ⊢
    split at h
    · rw [if_pos ‹_›]
      exact extends_parseEscape t a r h
    · rw [if_neg ‹_›]
      cases h
      rfl

theorem parseClassChar_append (ht : t ≠ []) (hb : t ≠ ['\\']) :
    parseClassChar (t ++ ['$']) = (parseClassChar t).map fun (x, r) => (x, r ++ ['$']) := by
  cases t with
  | nil => exact absurd rfl ht
  | cons c t =>
    simp only [List.cons_append, parseClassChar]
    split
    · rename_i hc
      exact parseEscape_append fun hnil => hb (by rw [hc, hnil])
    · rfl

/-- A dash at the end begins a range when another character follows. -/
theorem classRange_append {a : ClassItem} (h : classRange t = some (a, r)) (hr : r ≠ ['-']) :
    classRange (t ++ ['$']) = some (a, r ++ ['$']) := by
  rw [classRange] at h ⊢
  cases hlo : parseClassChar t with
  | none => rw [hlo] at h; cases h
  | some x =>
    obtain ⟨lo, u⟩ := x
    rw [hlo] at h
    rw [extends_parseClassChar t lo u hlo]
    match u, h with
    | [], h =>
      cases h
      rfl
    | [d], h =>
      cases h
      simp only [List.cons_append, List.nil_append]
      rw [if_neg fun hd => hr (by rw [hd.1])]
    | d :: c :: u, h =>
      simp only [List.cons_append] at h ⊢
      split at h
      · rw [if_pos ‹_›]
        cases hhi : parseClassChar (c :: u) with
        | none => rw [hhi] at h; cases h
        | some y =>
          obtain ⟨hi, v⟩ := y
          rw [hhi] at h
          have hext := extends_parseClassChar (c :: u) hi v hhi
          rw [List.cons_append] at hext
          simp only at h
          obtain ⟨hlt, h⟩ := Option.ite_none_left_eq_some.mp h
          cases h
          rw [hext]
          exact if_neg hlt
      · rw [if_neg ‹_›]
        cases h
        rfl

theorem classItem_append {a : ClassItem} (h : classItem U t = some (a, r)) (hr : r ≠ ['-']) :
    classItem U (t ++ ['$']) = some (a, r ++ ['$']) := by
  cases t with
  | nil => cases h
  | cons c u =>
    have hrange : classRange (c :: u) = some (a, r) →
        classRange (c :: (u ++ ['$'])) = some (a, r ++ ['$']) := fun h => classRange_append h hr
    simp only [List.cons_append, classItem] at h ⊢
    split at h
    · rename_i hname
      rw [if_pos ⟨hname.1, head?_append hname.2⟩, tail_append hname.2, cut_append (by decide)]
      cases hcut : cut ':' ']' u.tail with
      | none =>
        rw [hcut] at h
        exact hrange h
      | some x =>
        rw [hcut] at h
        obtain ⟨g, hg, h⟩ := Option.map_eq_some_iff.mp h
        cases h
        simp only [Option.map_some, hg]
    · rename_i hname
      rw [if_neg fun hn => head?_append_ne (by decide) (fun hu => hname ⟨hn.1, hu⟩) hn.2]
      split at h
      · rw [if_pos ‹_›]
        cases hc : escapedClass U u with
        | none =>
          rw [hc] at h
          rw [escapedClass_append, hc]
          exact hrange h
        | some item =>
          rw [hc] at h
          simp only at h
          subst h
          rw [escapedClass_append, hc]
          rfl
      · rw [if_neg ‹_›]
        exact hrange h

/-- There is no end of a class after a lone dash. -/
theorem classItems_dash (n : Nat) : classItems U n false ['-'] = none := by
  match n with
  | 0 => rfl
  | 1 => rfl
  | n + 2 => rfl

theorem classItems_append {n : Nat} {first : Bool} {items : List ClassItem}
    (h : classItems U n first t = some (items, r)) :
    classItems U (n + 1) first (t ++ ['$']) = some (items, r ++ ['$']) := by
  induction n generalizing t first items with
  | zero => cases h
  | succ n ih =>
    rw [classItems] at h ⊢
    split at h
    · rename_i hend
      cases h
      simp only [Bool.and_eq_true, decide_eq_true_eq] at hend
      rw [if_pos (by simp [hend.1, head?_append hend.2]), tail_append hend.2]
    · rename_i hend
      have hend' : ¬ (!first && decide ((t ++ ['$']).head? = some ']')) = true := by
        simp only [Bool.and_eq_true, decide_eq_true_eq, not_and] at hend ⊢
        exact fun hf => head?_append_ne (by decide) (hend hf)
      rw [if_neg hend']
      cases hitem : classItem U t with
      | none => rw [hitem] at h; cases h
      | some x =>
        obtain ⟨item, u⟩ := x
        rw [hitem] at h
        simp only at h
        obtain ⟨⟨items', v⟩, hrest, h⟩ := Option.map_eq_some_iff.mp h
        cases h
        have hu : u ≠ ['-'] := fun he => by
          rw [he, classItems_dash] at hrest
          cases hrest
        rw [classItem_append U hitem hu]
        simp only [ih hrest, Option.map_some]

theorem extends_parseClass : Extends (parseClass U) := by
  intro t a r h
  rw [parseClass] at h ⊢
  obtain ⟨⟨items, u⟩, hitems, h⟩ := Option.map_eq_some_iff.mp h
  cases h
  by_cases hneg : t.head? = some '^'
  · simp only [hneg, head?_append hneg, tail_append hneg, decide_true, if_true] at hitems ⊢
    rw [List.length_append, List.length_singleton, classItems_append U hitems]
    rfl
  · simp only [hneg, head?_append_ne (by decide) hneg, if_false] at hitems ⊢
    rw [List.length_append, List.length_singleton, classItems_append U hitems]
    rfl

end

theorem afterLazy_append (t : List Char) : afterLazy (t ++ ['$']) = afterLazy t ++ ['$'] := by
  rw [afterLazy, afterLazy]
  split
  · rename_i h
    have ht : t.head? = some '?' := by
      by_contra hne
      exact head?_append_ne (by decide) hne h
    rw [if_pos ht, tail_append ht]
  · rename_i h
    rw [if_neg fun ht => h (head?_append ht)]

theorem parseInt_append (t : List Char) :
    parseInt (t ++ ['$']) = (parseInt t).map fun (n, r) => (n, r ++ ['$']) := by
  have hspan : (t ++ ['$']).takeWhile isDigit = t.takeWhile isDigit ∧
      (t ++ ['$']).dropWhile isDigit = t.dropWhile isDigit ++ ['$'] := by
    induction t with
    | nil => exact ⟨rfl, rfl⟩
    | cons c t ih =>
      simp only [List.cons_append, List.takeWhile_cons, List.dropWhile_cons]
      split
      · exact ⟨congrArg (c :: ·) ih.1, ih.2⟩
      · exact ⟨rfl, rfl⟩
  rw [parseInt, parseInt, hspan.1, hspan.2]
  simp only
  split <;> rfl

theorem parseRepeat_append (t : List Char) :
    parseRepeat (t ++ ['$']) = (parseRepeat t).map fun (n, r) => (n, r ++ ['$']) := by
  rw [parseRepeat, parseRepeat, parseInt_append]
  cases parseInt t with
  | none => rfl
  | some x =>
    obtain ⟨min, u⟩ := x
    cases u with
    | nil => rfl
    | cons c u =>
      simp only [Option.map_some, List.cons_append]
      split
      · rfl
      · split
        · by_cases hu : u.head? = some '}'
          · rw [if_pos hu, if_pos (head?_append hu), tail_append hu]
            rfl
          · rw [if_neg hu, if_neg (head?_append_ne (by decide) hu), parseInt_append]
            cases parseInt u with
            | none => rfl
            | some y =>
              obtain ⟨max, v⟩ := y
              cases v with
              | nil => rfl
              | cons d v =>
                simp only [Option.map_some, List.cons_append]
                split <;> rfl
        · rfl

theorem groupFlags_append (negated saw : Bool) (changes : List (Flag × Bool)) (t : List Char) :
    groupFlags negated saw changes (t ++ ['$']) =
      (groupFlags negated saw changes t).map fun (x, r) => (x, r ++ ['$']) := by
  induction t generalizing negated saw changes with
  | nil => rfl
  | cons c t ih =>
    simp only [List.cons_append, groupFlags]
    split
    · exact ih ..
    · exact ih ..
    · exact ih ..
    · exact ih ..
    · split
      · rfl
      · exact ih ..
    · split <;> rfl
    · split <;> rfl
    · rfl

theorem namedGroup_append (t : List Char) :
    namedGroup (t ++ ['$']) = (namedGroup t).map fun (x, r) => (x, r ++ ['$']) := by
  rw [namedGroup, namedGroup, cutAt_append (by decide)]
  cases cutAt '>' t with
  | none => rfl
  | some x =>
    simp only [Option.map_some]
    split <;> rfl

theorem parsePerlFlags_append (t : List Char) :
    parsePerlFlags (t ++ ['$']) = (parsePerlFlags t).map fun (x, r) => (x, r ++ ['$']) := by
  rw [parsePerlFlags, parsePerlFlags]
  by_cases h : t.head? = some '<'
  · rw [if_pos h, if_pos (head?_append h), tail_append h]
    exact namedGroup_append _
  · rw [if_neg h, if_neg (head?_append_ne (by decide) h)]
    by_cases hP : t.head? = some 'P'
    · rw [tail_append hP]
      by_cases hname : t.tail.head? = some '<'
      · rw [if_pos ⟨head?_append hP, head?_append hname⟩, if_pos ⟨hP, hname⟩, tail_append hname]
        exact namedGroup_append _
      · rw [if_neg fun h => head?_append_ne (by decide) hname h.2, if_neg fun h => hname h.2]
        exact groupFlags_append ..
    · rw [if_neg fun h => head?_append_ne (by decide) hP h.1, if_neg fun h => hP h.1]
      exact groupFlags_append ..

/-! ## One more token -/

/-- The token is a quotation that the text does not end. -/
def Token.openQuote : Token → Bool
  | quote _ closed => !closed
  | _ => false

theorem groupFlags_token {negated saw : Bool} {changes : List (Flag × Bool)} {t r : List Char} {k : Token}
    (h : groupFlags negated saw changes t = some (k, r)) : k.openQuote = false := by
  induction t generalizing negated saw changes with
  | nil => cases h
  | cons c t ih =>
    simp only [groupFlags] at h
    split at h
    · exact ih h
    · exact ih h
    · exact ih h
    · exact ih h
    · exact ih (Option.ite_none_left_eq_some.mp h).2
    · cases (Option.ite_none_left_eq_some.mp h).2
      rfl
    · cases (Option.ite_none_left_eq_some.mp h).2
      rfl
    · cases h

theorem parsePerlFlags_token {t r : List Char} {k : Token} (h : parsePerlFlags t = some (k, r)) :
    k.openQuote = false := by
  have hnamed : ∀ t, namedGroup t = some (k, r) → k.openQuote = false := by
    intro t h
    rw [namedGroup] at h
    split at h
    · cases (Option.ite_none_right_eq_some.mp h).2
      rfl
    · cases h
  rw [parsePerlFlags] at h
  split at h
  · exact hnamed _ h
  · split at h
    · exact hnamed _ h
    · exact groupFlags_token h

section
variable (U : Unicode)

/-- A dollar sign after the text goes into an open quotation. -/
theorem parseBackslash_append {t r : List Char} {k : Token} (h : parseBackslash U t = some (k, r)) :
    (∃ text, k = .quote text false ∧ r = [] ∧
        parseBackslash U (t ++ ['$']) = some (.quote (text ++ ['$']) false, [])) ∨
      k.openQuote = false ∧ parseBackslash U (t ++ ['$']) = some (k, r ++ ['$']) := by
  cases t with
  | nil => cases h
  | cons c t =>
    simp only [List.cons_append, parseBackslash] at h ⊢
    split at h
    · cases h
      exact .inr ⟨rfl, rfl⟩
    · cases h
      exact .inr ⟨rfl, rfl⟩
    · cases h
      exact .inr ⟨rfl, rfl⟩
    · cases h
    · rw [cut_append (by decide)]
      cases hcut : cut '\\' 'E' t with
      | none =>
        rw [hcut] at h
        cases h
        exact .inl ⟨t, rfl, rfl, rfl⟩
      | some x =>
        rw [hcut] at h
        cases h
        exact .inr ⟨rfl, rfl⟩
    · cases h
      exact .inr ⟨rfl, rfl⟩
    · refine .inr ?_
      cases hc : escapedClass U (c :: t) with
      | none =>
        rw [hc] at h
        obtain ⟨⟨v, u⟩, he, h⟩ := Option.map_eq_some_iff.mp h
        cases h
        have hnone := escapedClass_append U (c :: t)
        have hext := extends_parseEscape (c :: t) v _ he
        rw [List.cons_append] at hnone hext
        rw [hnone, hc, hext]
        exact ⟨rfl, rfl⟩
      | some item =>
        rw [hc] at h
        obtain ⟨⟨g, u⟩, rfl, h⟩ := Option.map_eq_some_iff.mp h
        cases h
        have hsome := escapedClass_append U (c :: t)
        rw [List.cons_append] at hsome
        rw [hsome, hc]
        exact ⟨rfl, rfl⟩

theorem parseToken_append {t r : List Char} {k : Token} (h : parseToken U t = some (k, r)) :
    (∃ text, k = .quote text false ∧ r = [] ∧
        parseToken U (t ++ ['$']) = some (.quote (text ++ ['$']) false, [])) ∨
      k.openQuote = false ∧ parseToken U (t ++ ['$']) = some (k, r ++ ['$']) := by
  cases t with
  | nil => cases h
  | cons c t =>
    simp only [List.cons_append, parseToken] at h ⊢
    split at h
    · refine .inr ?_
      by_cases hq : t.head? = some '?'
      · rw [if_pos hq] at h
        rw [if_pos (head?_append hq), tail_append hq, parsePerlFlags_append, h]
        exact ⟨parsePerlFlags_token h, rfl⟩
      · rw [if_neg hq] at h
        rw [if_neg (head?_append_ne (by decide) hq)]
        cases h
        exact ⟨rfl, rfl⟩
    all_goals first
      | (cases h; exact .inr ⟨rfl, rfl⟩)
      | skip
    · refine .inr ⟨?_, extends_parseClass U t k r h⟩
      obtain ⟨x, -, h⟩ := Option.map_eq_some_iff.mp h
      cases h
      rfl
    · cases h
      exact .inr ⟨rfl, by rw [afterLazy_append]⟩
    · cases h
      exact .inr ⟨rfl, by rw [afterLazy_append]⟩
    · cases h
      exact .inr ⟨rfl, by rw [afterLazy_append]⟩
    · refine .inr ?_
      rw [parseRepeat_append]
      cases hr : parseRepeat t with
      | none =>
        rw [hr] at h
        cases h
        exact ⟨rfl, rfl⟩
      | some x =>
        rw [hr] at h
        simp only [Option.map_some] at h ⊢
        obtain ⟨hv, h⟩ := Option.ite_none_right_eq_some.mp h
        cases h
        rw [if_pos hv, afterLazy_append]
        exact ⟨rfl, rfl⟩
    · exact parseBackslash_append U h

/-- The tokens between the anchors: a dollar sign more, or a quotation that is
longer by one. -/
def closed (ts : List Token) : List Token :=
  match ts.getLast? with
  | some (.quote text false) => ts.dropLast ++ [.quote (text ++ ['$']) false]
  | _ => ts ++ [.dollar]

theorem closed_cons (k : Token) {ts : List Token} (h : ts ≠ []) : closed (k :: ts) = k :: closed ts := by
  rw [closed, closed, List.getLast?_cons_of_ne_nil h, List.dropLast_cons_of_ne_nil h]
  split <;> rfl

/-- **The tokens of a text** are those of the text with a dollar sign behind it,
closed by one. -/
theorem tokens_append {n : Nat} {t : List Char} {ts : List Token} (h : tokens U n t = some ts) :
    tokens U (n + 1) (t ++ ['$']) = some (closed ts) := by
  induction n generalizing t ts with
  | zero =>
    cases t with
    | nil => cases h; rfl
    | cons c t => cases h
  | succ n ih =>
    cases t with
    | nil => cases h; rfl
    | cons c t =>
      rw [tokens] at h
      split at h
      · rename_i k r hk
        obtain ⟨ts', hts, rfl⟩ := Option.map_eq_some_iff.mp h
        rw [List.cons_append, tokens]
        have happend := parseToken_append U hk
        rw [List.cons_append] at happend
        rcases happend with ⟨text, rfl, rfl, hopen⟩ | ⟨hk, hmore⟩
        · -- the quotation takes the rest
          rw [hopen]
          have hnil : ts' = [] := by cases n <;> (cases hts; rfl)
          subst hnil
          cases n <;> rfl
        · rw [hmore]
          simp only [ih hts, Option.map_some, Option.some.injEq]
          by_cases hnil : ts' = []
          · subst hnil
            cases k with
            | quote text b =>
              cases b with
              | false => cases hk
              | true => rfl
            | _ => rfl
          · exact (closed_cons k hnil).symm
      · cases h

end

end
end Regexp
