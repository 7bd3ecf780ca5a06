import OjsSqs.Regexp.Anchors
import Mathlib.Data.List.Induction

/-! # What the anchors are read with

The parser of an anchored pattern is in every step the parser of the pattern,
with the first anchor in front of its first alternative. -/
namespace Regexp

section
variable {s : List Rune} {e h : Expr} {seq : List Expr} {i j : Nat}

/-! ## Sequences and alternations -/

theorem concat_lead (seq : List Expr) (h : Expr) : concat (seq ++ [h]) = .cat h (concat seq) :=
  List.foldl_append

theorem foldl_cat_spans (a : Expr) :
    (seq.foldl (fun e a => .cat a e) a).Spans s i j ↔ ∃ k, (concat seq).Spans s i k ∧ a.Spans s k j := by
  induction seq using List.reverseRecOn generalizing i with
  | nil => exact ⟨fun ha => ⟨i, rfl, ha⟩, fun ⟨_, hk, ha⟩ => Eq.symm hk ▸ ha⟩
  | append_singleton seq b ih =>
    rw [List.foldl_append, concat_lead]
    constructor
    · rintro ⟨k, hb, hrest⟩
      obtain ⟨k', hseq, ha⟩ := ih.mp hrest
      exact ⟨k', ⟨k, hb, hseq⟩, ha⟩
    · rintro ⟨k', ⟨k, hb, hseq⟩, ha⟩
      exact ⟨k, hb, ih.mpr ⟨k', hseq, ha⟩⟩

/-- The newest part is matched last. -/
theorem concat_push_spans :
    (concat (e :: seq)).Spans s i j ↔ ∃ k, (concat seq).Spans s i k ∧ e.Spans s k j := by
  rw [concat, List.foldl_cons, foldl_cat_spans]
  refine exists_congr fun k => and_congr_right fun _ => ?_
  exact ⟨fun ⟨_, he, hj⟩ => Eq.subst (motive := fun x => e.Spans s k x) hj he, fun he => ⟨j, he, rfl⟩⟩

/-- The alternatives of an alternation. -/
def Level.alternatives (l : Level) : List Expr := l.alts ++ [concat l.seq]

theorem Level.expr_spans (l : Level) :
    l.expr.Spans s i j ↔ ∃ a ∈ l.alternatives, a.Spans s i j := by
  obtain ⟨alts, seq⟩ := l
  simp only [expr, alternatives, alternate]
  induction alts with
  | nil => simp
  | cons b alts ih =>
    simp only [List.foldr_cons, List.cons_append, List.mem_cons, exists_eq_or_imp]
    exact or_congr Iff.rfl ih

/-! ## In front of the first alternative -/

def Level.lead (h : Expr) (l : Level) : Level :=
  match l.alts with
  | [] => { l with seq := l.seq ++ [h] }
  | a :: alts => { l with alts := .cat h a :: alts }

theorem Level.lead_push (l : Level) : (l.push e).lead h = (l.lead h).push e := by
  obtain ⟨alts, seq⟩ := l
  cases alts <;> rfl

theorem Level.lead_bar (l : Level) : l.bar.lead h = (l.lead h).bar := by
  obtain ⟨alts, seq⟩ := l
  cases alts with
  | nil =>
    simp only [bar, lead, List.nil_append]
    rw [concat_lead]
  | cons a alts => rfl

/-- The outermost alternation is the last one of the open groups. -/
def leadOuter (h : Expr) : List (Level × Flags) → List (Level × Flags)
  | [] => []
  | [(l, f)] => [(l.lead h, f)]
  | x :: y :: outer => x :: leadOuter h (y :: outer)

def Parser.lead (h : Expr) (p : Parser) : Parser :=
  if p.outer.isEmpty then { p with level := p.level.lead h }
  else { p with outer := leadOuter h p.outer }

/-- The token changes flags only, or nothing. -/
def Token.silent : Token → Bool
  | .flags _ => true
  | .quote text _ => text.isEmpty
  | _ => false

/-- The first part of a pattern is a repetition. -/
def beginsWithRepetition (ts : List Token) : Bool :=
  match ts.dropWhile Token.silent with
  | .repeats _ :: _ => true
  | _ => false

namespace Parser

variable (U : Unicode) {p p' : Parser} {k : Token} {ts : List Token}

@[simp] theorem lead_flags (p : Parser) : (p.lead h).flags = p.flags := by
  rw [lead]
  split <;> rfl

@[simp] theorem lead_repeated (p : Parser) : (p.lead h).repeated = p.repeated := by
  rw [lead]
  split <;> rfl

@[simp] theorem lead_outer (p : Parser) : (p.lead h).outer.isEmpty = p.outer.isEmpty := by
  obtain ⟨flags, level, outer, repeated⟩ := p
  match outer with
  | [] => rfl
  | [_] => rfl
  | _ :: _ :: _ => rfl

theorem lead_level (ho : p.outer.isEmpty) : (p.lead h).level = p.level.lead h := by
  rw [lead, if_pos ho]

theorem lead_push (p : Parser) : (p.push e).lead h = (p.lead h).push e := by
  obtain ⟨flags, level, outer, repeated⟩ := p
  cases outer with
  | nil => simp [lead, push, Level.lead_push]
  | cons x outer => simp [lead, push]

theorem lead_quote (text : List Char) (p : Parser) :
    (text.foldl (fun p c => p.push (literalExpr U p.flags c.toNat)) p).lead h =
      text.foldl (fun p c => p.push (literalExpr U p.flags c.toNat)) (p.lead h) := by
  induction text generalizing p with
  | nil => rfl
  | cons c text ih =>
    rw [List.foldl_cons, List.foldl_cons, ih, lead_push, lead_flags]

theorem step_lead (hs : p.step U k = some p') : (p.lead h).step U k = some (p'.lead h) := by
  have hpush : ∀ e, some (p.push e) = some p' → some ((p.lead h).push e) = some (p'.lead h) := by
    rintro e ⟨⟩
    rw [lead_push]
  cases k with
  | literal c => rw [step, lead_flags]; exact hpush _ hs
  | quote text closed =>
    cases hs
    have hcalm : ({ p.lead h with repeated := false } : Parser) =
        ({ p with repeated := false } : Parser).lead h := by
      rw [lead, lead]
      split <;> rfl
    rw [step, hcalm, lead_quote]
  | cls negated items => rw [step, lead_flags]; exact hpush _ hs
  | dot => rw [step, lead_flags]; exact hpush _ hs
  | caret => rw [step, lead_flags]; exact hpush _ hs
  | dollar => rw [step, lead_flags]; exact hpush _ hs
  | beginText => exact hpush _ hs
  | endText => exact hpush _ hs
  | wordBoundary => exact hpush _ hs
  | noWordBoundary => exact hpush _ hs
  | bar =>
    cases hs
    obtain ⟨flags, level, outer, repeated⟩ := p
    cases outer with
    | nil => simp [step, lead, Level.lead_bar]
    | cons x outer => simp [step, lead]
  | opens changes =>
    cases hs
    obtain ⟨flags, level, outer, repeated⟩ := p
    cases outer with
    | nil => simp [step, lead, leadOuter]
    | cons x outer => simp [step, lead, leadOuter]
  | flags changes =>
    cases hs
    obtain ⟨flags, level, outer, repeated⟩ := p
    cases outer with
    | nil => simp [step, lead]
    | cons x outer => simp [step, lead]
  | close =>
    obtain ⟨flags, level, outer, repeated⟩ := p
    match outer, hs with
    | [(l, f)], hs =>
      cases hs
      simp [step, lead, leadOuter, Level.lead_push]
    | (l, f) :: y :: outer, hs =>
      cases hs
      simp [step, lead, leadOuter]
  | repeats op =>
    obtain ⟨flags, ⟨alts, seq⟩, outer, repeated⟩ := p
    rw [step] at hs ⊢
    rw [lead_repeated]
    split at hs
    · cases hs
    · rename_i hrep
      rw [if_neg hrep]
      cases seq with
      | nil => cases hs
      | cons a seq =>
        obtain ⟨hallowed, hs⟩ := Option.ite_none_right_eq_some.mp hs
        cases hs
        cases outer with
        | nil => cases alts <;> simp [lead, Level.lead, hallowed]
        | cons x outer => simp [lead, hallowed]

/-- Nothing of the pattern is there that could be repeated. -/
def blank (p : Parser) : Bool := p.outer.isEmpty && p.level.alts.isEmpty && p.level.seq.isEmpty

/-- One token behind an anchor. The anchor is what a repetition takes that has no
argument in the pattern. -/
def stepBehind (x : Expr × Parser) (k : Token) : Option (Expr × Parser) :=
  match x.2.step U k with
  | some p => some (x.1, p)
  | none => match k with
    | .repeats op =>
      if x.2.blank && !x.2.repeated && repeatAllowed op x.1 then
        some (.repeats op x.1, { x.2 with repeated := true })
      else none
    | _ => none

def runBehind (x : Expr × Parser) (ts : List Token) : Option (Expr × Parser) :=
  ts.foldlM (stepBehind U) x

/-- A token that is refused is a parenthesis without a partner, or a repetition. -/
theorem step_none (hs : p.step U k = none) :
    (k = .close ∧ p.outer = []) ∨ ∃ op, k = .repeats op ∧
      (p.repeated = true ∨ p.level.seq = [] ∨
        ∃ a seq, p.level.seq = a :: seq ∧ repeatAllowed op a = false) := by
  cases k with
  | close =>
    obtain ⟨flags, level, outer, repeated⟩ := p
    cases outer with
    | nil => exact .inl ⟨rfl, rfl⟩
    | cons x outer => cases hs
  | repeats op =>
    refine .inr ⟨op, rfl, ?_⟩
    rw [step] at hs
    split at hs
    · exact .inl ‹_›
    · split at hs
      · exact .inr (.inl ‹_›)
      · rename_i a seq hseq
        refine .inr (.inr ⟨a, seq, hseq, ?_⟩)
        simpa using hs
  | _ => cases hs

/-- **One token.** -/
theorem step_behind (h : Expr) (p : Parser) (k : Token) :
    (p.lead h).step U k = (stepBehind U (h, p) k).map fun x => x.2.lead x.1 := by
  unfold stepBehind
  cases hs : p.step U k with
  | some p' => exact step_lead U hs
  | none =>
    simp only
    rcases step_none U hs with ⟨rfl, ho⟩ | ⟨op, rfl, hrep | hseq | ⟨a, seq, hseq, hlarge⟩⟩
    · simp [step, lead, ho]
    · simp [step, hrep]
    · obtain ⟨flags, ⟨alts, seq⟩, outer, repeated⟩ := p
      obtain rfl : seq = [] := hseq
      cases repeated with
      | true => simp [step]
      | false =>
        cases outer with
        | cons x outer => simp [step, lead, blank]
        | nil =>
          cases alts with
          | cons a alts => simp [step, lead, Level.lead, blank]
          | nil =>
            cases hall : repeatAllowed op h <;> simp [step, lead, Level.lead, blank, hall]
    · obtain ⟨flags, ⟨alts, seq'⟩, outer, repeated⟩ := p
      obtain rfl : seq' = a :: seq := hseq
      cases outer with
      | nil => cases alts <;> simp [step, lead, Level.lead, blank, hlarge]
      | cons x outer => simp [step, lead, blank, hlarge]

theorem run_behind (h : Expr) (p : Parser) (ts : List Token) :
    (p.lead h).run U ts = (runBehind U (h, p) ts).map fun x => x.2.lead x.1 := by
  induction ts generalizing h p with
  | nil => rfl
  | cons k ts ih =>
    rw [run, runBehind, List.foldlM_cons, List.foldlM_cons, step_behind]
    cases stepBehind U (h, p) k with
    | none => rfl
    | some x => exact ih x.1 x.2

/-- The anchor is repeated only where the pattern itself is refused. -/
theorem runBehind_of_run (h : Expr) (hr : p.run U ts = some p') :
    runBehind U (h, p) ts = some (h, p') := by
  induction ts generalizing p with
  | nil =>
    cases hr
    rfl
  | cons k ts ih =>
    rw [run, List.foldlM_cons] at hr
    obtain ⟨p₁, hs, hr⟩ := Option.bind_eq_some_iff.mp hr
    have hstep : stepBehind U (h, p) k = some (h, p₁) := by
      unfold stepBehind
      rw [hs]
    rw [runBehind, List.foldlM_cons, hstep]
    exact ih hr

/-! ### Patterns that do not begin with a repetition -/

theorem quote_fills (text : List Char) (p : Parser) (h : p.blank = false ∨ text ≠ []) :
    (text.foldl (fun p c => p.push (literalExpr U p.flags c.toNat)) p).blank = false := by
  induction text generalizing p with
  | nil => exact h.resolve_right (fun hne => hne rfl)
  | cons c text ih => exact ih _ (.inl (by simp [blank, push, Level.push]))

theorem step_fills (hs : p.step U k = some p') (hk : p.blank = false ∨ k.silent = false) :
    p'.blank = false := by
  have hpush : ∀ e (q : Parser), (q.push e).blank = false := by
    intro e q
    simp [blank, push, Level.push]
  cases k with
  | quote text closed =>
    cases hs
    refine quote_fills U text _ (hk.imp id fun hk => ?_)
    simpa [Token.silent] using hk
  | bar =>
    cases hs
    simp [blank, Level.bar]
  | opens changes =>
    cases hs
    simp [blank]
  | flags changes =>
    cases hs
    exact hk.resolve_right (by simp [Token.silent])
  | close =>
    obtain ⟨flags, level, outer, repeated⟩ := p
    cases outer with
    | nil => cases hs
    | cons x outer =>
      cases hs
      simp [blank, Level.push]
  | repeats op =>
    rw [step] at hs
    split at hs
    · cases hs
    · split at hs
      · cases hs
      · cases (Option.ite_none_right_eq_some.mp hs).2
        simp [blank]
  | _ =>
    cases hs
    exact hpush _ _

theorem runBehind_filled (h : Expr) (hp : p.blank = false) :
    runBehind U (h, p) ts = (p.run U ts).map (h, ·) := by
  induction ts generalizing p with
  | nil => rfl
  | cons k ts ih =>
    rw [run, runBehind, List.foldlM_cons, List.foldlM_cons]
    unfold stepBehind
    cases hs : p.step U k with
    | some p' => exact ih (step_fills U hs (.inl hp))
    | none => cases k <;> simp [hp]

/-- An anchor is only repeated by a repetition at the beginning. -/
theorem runBehind_plain (h : Expr) (p : Parser) (hts : beginsWithRepetition ts = false) :
    runBehind U (h, p) ts = (p.run U ts).map (h, ·) := by
  induction ts generalizing p with
  | nil => rfl
  | cons k ts ih =>
    rw [run, runBehind, List.foldlM_cons, List.foldlM_cons]
    unfold stepBehind
    cases hs : p.step U k with
    | some p' =>
      cases hk : k.silent with
      | true =>
        refine ih p' ?_
        rwa [beginsWithRepetition, List.dropWhile_cons, if_pos hk] at hts
      | false => exact runBehind_filled U h (step_fills U hs (.inr hk))
    | none =>
      cases k with
      | repeats op => cases hts
      | _ => rfl

end Parser

/-! ## Behind the last alternative -/

variable (U : Unicode)

/-- What the dollar sign stands for: the end, or itself in a quotation. -/
def tailExpr (ts : List Token) (f : Flags) : Expr :=
  match ts.getLast? with
  | some (.quote _ false) => literalExpr U f '$'.toNat
  | _ => dollarExpr f

theorem run_closed (p : Parser) (ts : List Token) :
    p.run U (closed ts) = (p.run U ts).map fun p' => p'.push (tailExpr U ts p'.flags) := by
  have hplain : p.run U (ts ++ [.dollar]) = (p.run U ts).map fun p' => p'.push (dollarExpr p'.flags) := by
    rw [Parser.run, Parser.run, List.foldlM_append]
    cases ts.foldlM (Parser.step U) p <;> rfl
  by_cases hopen : ∃ text, ts.getLast? = some (.quote text false)
  · obtain ⟨text, hlast⟩ := hopen
    rw [closed, hlast]
    simp only [tailExpr, hlast]
    obtain ⟨us, rfl⟩ : ∃ us, ts = us ++ [.quote text false] :=
      ⟨ts.dropLast, (List.dropLast_append_getLast? _ hlast).symm⟩
    rw [List.dropLast_concat, Parser.run, Parser.run, List.foldlM_append, List.foldlM_append]
    cases us.foldlM (Parser.step U) p with
    | none => rfl
    | some p₁ => simp [Parser.step, List.foldl_append]
  · rw [not_exists] at hopen
    have htail : ∀ f, tailExpr U ts f = dollarExpr f := by
      intro f
      rw [tailExpr]
      split
      · exact absurd ‹_› (hopen _)
      · rfl
    have hclosed : closed ts = ts ++ [.dollar] := by
      rw [closed]
      split
      · exact absurd ‹_› (hopen _)
      · rfl
    rw [hclosed, hplain]
    simp only [htail]

/-! ## What is found -/

/-- An alternative matches a part of the text. In front of the first one the head
has to match, and behind the last one the tail. -/
def Level.Loosely (s : List Rune) (head tail : Expr) (l : Level) : Prop :=
  ∃ earlier a later i j, l.alternatives = earlier ++ a :: later ∧ i ≤ s.length ∧ a.Spans s i j ∧
    (earlier = [] → ∃ i' ≤ i, head.Spans s i' i) ∧ (later = [] → ∃ j', tail.Spans s j j')

theorem expr_found (l : Level) : l.expr.Found s ↔ ∃ a ∈ l.alternatives, a.Found s := by
  constructor
  · rintro ⟨i, j, hi, h⟩
    obtain ⟨a, ha, h⟩ := l.expr_spans.mp h
    exact ⟨a, ha, i, j, hi, h⟩
  · rintro ⟨a, ha, i, j, hi, h⟩
    exact ⟨i, j, hi, l.expr_spans.mpr ⟨a, ha, h⟩⟩

/-- **What the anchored alternatives find.** -/
theorem Level.found_anchored (head tail : Expr) (l : Level) :
    ((l.lead head).push tail).expr.Found s ↔ l.Loosely s head tail := by
  rw [expr_found]
  obtain ⟨alts, seq⟩ := l
  cases alts with
  | nil =>
    simp only [lead, push, alternatives, List.nil_append, List.mem_singleton, exists_eq_left]
    constructor
    · rintro ⟨i, j, hi, h⟩
      obtain ⟨k, hseq, htail⟩ := concat_push_spans.mp h
      rw [concat_lead] at hseq
      obtain ⟨m, hhead, hseq⟩ := hseq
      obtain ⟨him, hm⟩ := head.spans_forward s i m hi hhead
      exact ⟨[], concat seq, [], m, k, rfl, hm, hseq, fun _ => ⟨i, him, hhead⟩, fun _ => ⟨j, htail⟩⟩
    · rintro ⟨earlier, a, later, i, j, hl, hi, ha, hbegin, hend⟩
      obtain ⟨rfl, rfl, rfl⟩ : earlier = [] ∧ concat seq = a ∧ later = [] := by
        cases earlier with
        | nil => simpa [alternatives] using hl
        | cons b earlier => simp [alternatives] at hl
      obtain ⟨i', hle, hhead⟩ := hbegin rfl
      obtain ⟨j', htail⟩ := hend rfl
      refine ⟨i', j', hle.trans hi, concat_push_spans.mpr ⟨j, ?_, htail⟩⟩
      rw [concat_lead]
      exact ⟨i, hhead, ha⟩
  | cons a₀ alts =>
    simp only [lead, push, alternatives, List.cons_append, List.mem_cons, List.mem_append,
      List.not_mem_nil, or_false]
    constructor
    · rintro ⟨a, (rfl | ha | rfl), i, j, hi, h⟩
      · obtain ⟨m, hhead, h⟩ := h
        obtain ⟨him, hm⟩ := head.spans_forward s i m hi hhead
        exact ⟨[], a₀, alts ++ [concat seq], m, j, rfl, hm, h, fun _ => ⟨i, him, hhead⟩,
          fun he => by simp at he⟩
      · obtain ⟨earlier, later, rfl⟩ := List.append_of_mem ha
        refine ⟨a₀ :: earlier, a, later ++ [concat seq], i, j, ?_, hi, h, nofun, fun he => by simp at he⟩
        simp [alternatives]
      · obtain ⟨k, hseq, htail⟩ := concat_push_spans.mp h
        exact ⟨a₀ :: alts, concat seq, [], i, k, rfl, hi, hseq, nofun, fun _ => ⟨j, htail⟩⟩
    · rintro ⟨earlier, a, later, i, j, hl, hi, ha, hbegin, hend⟩
      simp only [alternatives, List.cons_append] at hl
      cases earlier with
      | nil =>
        obtain ⟨rfl, -⟩ := List.cons.inj hl
        obtain ⟨i', hle, hhead⟩ := hbegin rfl
        exact ⟨_, .inl rfl, i', j, hle.trans hi, i, hhead, ha⟩
      | cons b earlier =>
        obtain ⟨-, hl⟩ := List.cons.inj hl
        rcases List.eq_nil_or_concat later with rfl | ⟨later, c, rfl⟩
        · obtain ⟨-, hlast⟩ := List.append_inj' hl rfl
          obtain ⟨rfl, -⟩ := List.cons.inj hlast
          obtain ⟨j', htail⟩ := hend rfl
          exact ⟨_, .inr (.inr rfl), i, j', hi, concat_push_spans.mpr ⟨j, ha, htail⟩⟩
        · have hl : alts ++ [concat seq] = (earlier ++ a :: later) ++ [c] := by
            refine Eq.trans hl ?_
            rw [List.append_assoc, List.cons_append, List.concat_eq_append]
            rfl
          obtain ⟨hmid, -⟩ := List.append_inj' hl rfl
          refine ⟨a, .inr (.inl ?_), i, j, hi, ha⟩
          rw [hmid]
          exact List.mem_append_right _ List.mem_cons_self

/-! ## Between the anchors -/

/-- The first anchor with its repetitions, the alternatives, and what is behind
the last of them. -/
def framed (ts : List Token) (tail : Flags → Expr) : Option (Expr × Level × Expr) :=
  match Parser.runBehind U (.beginText, {}) ts with
  | some (head, p) => if p.outer.isEmpty then some (head, p.level, tail p.flags) else none
  | none => none

/-- What a text is read as between the anchors. A backslash at its end takes the
second anchor, and nothing is behind the alternatives then. -/
def readBehind (t : List Char) : Option (Expr × Level × Expr) :=
  match tokens U t.length t with
  | some ts => framed U ts (tailExpr U ts)
  | none => match tokens U (t.length + 1) (t ++ ['$']) with
    | some ts => framed U ts fun _ => .empty
    | none => none

/-- The reading is that of the expression: the same is found. -/
def Reads (x : Option (Expr × Level × Expr)) (e : Option Expr) : Prop :=
  match x with
  | some (head, level, tail) => ∃ e', e = some e' ∧ ∀ s, e'.Found s ↔ level.Loosely s head tail
  | none => e = none

theorem parse_caret {t : List Char} {ts : List Token} (hts : tokens U t.length t = some ts) :
    parse U ('^' :: t) = match Parser.run U (Parser.lead .beginText {}) ts with
      | some p => if p.outer.isEmpty then some p.level.expr else none
      | none => none := by
  have htokens : tokens U ('^' :: t).length ('^' :: t) = some (.caret :: ts) := by
    rw [List.length_cons, tokens]
    change (tokens U t.length t).map _ = _
    rw [hts]
    rfl
  have hrun : Parser.run U {} (.caret :: ts) = Parser.run U (Parser.lead .beginText {}) ts := rfl
  rw [parse, read, htokens]
  simp only [hrun]
  cases Parser.run U (Parser.lead .beginText {}) ts <;> rfl

theorem parse_caret_none {t : List Char} (hts : tokens U t.length t = none) :
    parse U ('^' :: t) = none := by
  have htokens : tokens U ('^' :: t).length ('^' :: t) = none := by
    rw [List.length_cons, tokens]
    change (tokens U t.length t).map _ = _
    rw [hts]
    rfl
  rw [parse, read, htokens]

theorem push_empty_found (l : Level) : (l.push .empty).expr.Found s ↔ l.expr.Found s := by
  have hnothing : ∀ i j, (concat (.empty :: l.seq)).Spans s i j ↔ (concat l.seq).Spans s i j := by
    intro i j
    rw [concat_push_spans]
    exact ⟨fun ⟨_, h, he⟩ => Eq.subst (motive := fun x => (concat l.seq).Spans s i x) he h, fun h => ⟨j, h, rfl⟩⟩
  simp only [Expr.Found, Level.expr_spans, Level.alternatives, Level.push, List.mem_append,
    List.mem_singleton, or_and_right, exists_or, exists_eq_left, hnothing]

/-- **An anchored text** is an expression when its reading is one, and finds what
the reading says. -/
theorem parse_behind (t : List Char) : Reads (readBehind U t) (parse U ('^' :: (t ++ ['$']))) := by
  have hlength : (t ++ ['$']).length = t.length + 1 := List.length_append
  rw [readBehind]
  cases hts : tokens U t.length t with
  | some ts =>
    have hmore := tokens_append U hts
    rw [← hlength] at hmore
    rw [parse_caret U hmore, run_closed, Parser.run_behind]
    simp only [framed]
    cases Parser.runBehind U (.beginText, {}) ts with
    | none => rfl
    | some x =>
      obtain ⟨head, p⟩ := x
      simp only [Option.map_some, Parser.push, Parser.lead_outer, Parser.lead_flags]
      split
      · rename_i ho
        refine ⟨_, rfl, fun s => ?_⟩
        rw [Parser.lead_level ho]
        exact p.level.found_anchored head _
      · rfl
  | none =>
    simp only
    cases hdollar : tokens U (t.length + 1) (t ++ ['$']) with
    | none =>
      rw [← hlength] at hdollar
      exact parse_caret_none U hdollar
    | some ts =>
      rw [← hlength] at hdollar
      rw [parse_caret U hdollar, Parser.run_behind]
      simp only [framed]
      cases Parser.runBehind U (.beginText, {}) ts with
      | none => rfl
      | some x =>
        obtain ⟨head, p⟩ := x
        simp only [Option.map_some, Parser.lead_outer]
        split
        · rename_i ho
          refine ⟨_, rfl, fun s => ?_⟩
          rw [Parser.lead_level ho, ← push_empty_found]
          exact p.level.found_anchored head .empty
        · rfl

/-- A text that does not begin with a repetition is no more of an expression for
the anchor in front of it. -/
theorem readBehind_plain {t : List Char} {ts : List Token} (hts : tokens U t.length t = some ts)
    (hplain : beginsWithRepetition ts = false) (hparse : parse U t = none) : readBehind U t = none := by
  rw [parse, read, hts] at hparse
  rw [readBehind, hts]
  simp only [framed, Parser.runBehind_plain U .beginText {} hplain] at hparse ⊢
  cases hrun : Parser.run U {} ts with
  | none => rfl
  | some p =>
    rw [hrun] at hparse
    simp only [Option.map_some] at hparse ⊢
    split at hparse
    · cases hparse
    · exact if_neg ‹_›

/-- An expression keeps its anchor. -/
theorem readBehind_of_read {t : List Char} {ts : List Token} {p : Parser} (hr : read U t = some (ts, p))
    (ho : p.outer.isEmpty) : readBehind U t = some (.beginText, p.level, tailExpr U ts p.flags) := by
  rw [read] at hr
  split at hr
  · rename_i ts' hts
    obtain ⟨p', hrun, he⟩ := Option.map_eq_some_iff.mp hr
    obtain ⟨rfl, rfl⟩ := Prod.mk.inj he
    rw [readBehind, hts]
    simp only [framed, Parser.runBehind_of_run U .beginText hrun]
    rw [if_pos ho]
  · cases hr

end
end Regexp
