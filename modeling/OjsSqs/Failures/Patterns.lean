import OjsSqs.Atomic.Steps
import OjsSqs.Regexp.Between
import OjsSqs.Regexp.Broken
import OjsSqs.Sqs.Jobs

/-! # Patterns of errors that are not retried

`matchesPattern` puts a pattern between anchors before it compiles it, without a
group. The anchors belong to single alternatives then, and they can make an
expression of a text that is none. -/
namespace OjsSqs
open Regexp

/-- The configuration with the package `regexp`. -/
def withRegexp (cfg : Config) (R : Package) : Config :=
  { cfg with regexpMatch := fun pattern => (R.compile pattern).map fun e s => e.matchString (runes s) }

/-- What Nack compares with the patterns, besides the message. -/
def errorType (e : JobError) : String := if e.type = "" then e.code else e.type

/-- The pattern as it is compiled. -/
def anchored (pattern : String) : String := "^" ++ pattern ++ "$"

variable {R : Package} {cfg : Config} {s pattern : String}

/-- The whole text matches the pattern, or is the pattern when it is no
expression. -/
def MatchesFully (R : Package) (s pattern : String) : Prop :=
  match R.compile pattern with
  | some e => e.Full (runes s)
  | none => s = pattern

instance : Decidable (MatchesFully R s pattern) :=
  match h : R.compile pattern with
  | some e => decidable_of_iff (e.Full (runes s)) (by rw [MatchesFully, h])
  | none => decidable_of_iff (s = pattern) (by rw [MatchesFully, h])

/-- What the pattern is read as, when it is an expression: its alternatives, and
what the second anchor is behind them. -/
def reading (R : Package) (pattern : String) : Option (Level × Expr) :=
  match read R.unicode pattern.toList with
  | some (ts, p) =>
    if R.small pattern ∧ p.outer.isEmpty then some (p.level, tailExpr R.unicode ts p.flags) else none
  | none => none

/-- The anchors can make an expression of a text that is none: a repetition at its
beginning takes the first one, a backslash at its end the second. (That it is too
large without them is a question of the package.) -/
def Mendable (R : Package) (pattern : String) : Prop :=
  R.small pattern = false ∨ pattern.toList.getLast? = some '\\' ∨
    ∃ ts, tokens R.unicode pattern.toList.length pattern.toList = some ts ∧ beginsWithRepetition ts

/-- The anchors do no harm to the pattern on this text. An alternative of an
expression that matches between the anchors it gets is not the only match: the
whole text matches. A quotation that is still open takes the anchor in, and then
the match has to be there as well. An expression too large with its anchors, and
a text that the anchors make an expression of, match themselves only. -/
def AnchorsFit (R : Package) (s pattern : String) : Prop :=
  match reading R pattern with
  | some (level, tail) =>
    if R.small (anchored pattern) then
      (level.Loosely (runes s) .beginText tail ↔ ∃ a ∈ level.alternatives, a.Full (runes s))
    else (s = pattern ↔ ∃ a ∈ level.alternatives, a.Full (runes s))
  | none => Mendable R pattern → R.small (anchored pattern) → ∀ head level tail,
      readBehind R.unicode pattern.toList = some (head, level, tail) →
      (level.Loosely (runes s) head tail ↔ s = pattern)

theorem matchesPattern_iff (cfg : Config) (R : Package) (s pattern : String) :
    matchesPattern (withRegexp cfg R) s pattern = true ↔
      match R.compile (anchored pattern) with
      | some e => e.Found (runes s)
      | none => s = pattern := by
  have hlook : (withRegexp cfg R).regexpMatch ("^" ++ pattern ++ "$") =
      (R.compile (anchored pattern)).map fun e s => e.matchString (runes s) := rfl
  rw [matchesPattern, hlook]
  cases R.compile (anchored pattern) with
  | none => exact decide_eq_true_iff
  | some e => exact e.matchString_iff (runes s)

theorem compile_anchored (hsmall : R.small (anchored pattern) = true) :
    Reads (readBehind R.unicode pattern.toList) (R.compile (anchored pattern)) := by
  have hchars : (anchored pattern).toList = '^' :: (pattern.toList ++ ['$']) := by
    simp [anchored, String.toList_append]
  rw [Package.compile, if_pos hsmall, hchars]
  exact parse_behind R.unicode pattern.toList

/-- A pattern that has a reading is an expression of its alternatives. -/
theorem compile_reading {level : Level} {tail : Expr} (h : reading R pattern = some (level, tail)) :
    R.compile pattern = some level.expr ∧
      readBehind R.unicode pattern.toList = some (.beginText, level, tail) := by
  rw [reading] at h
  split at h
  · rename_i ts p hread
    obtain ⟨⟨hsmall, ho⟩, h⟩ := Option.ite_none_right_eq_some.mp h
    obtain ⟨rfl, rfl⟩ := Prod.mk.inj (Option.some.inj h)
    have hparse : parse R.unicode pattern.toList = some p.level.expr := by
      rw [parse, hread]
      exact if_pos ho
    refine ⟨?_, readBehind_of_read R.unicode hread ho⟩
    rw [Package.compile, if_pos hsmall, hparse]
  · cases h

theorem parse_none (h : reading R pattern = none) (hsmall : R.small pattern = true) :
    parse R.unicode pattern.toList = none := by
  rw [parse]
  rw [reading] at h
  cases hread : read R.unicode pattern.toList with
  | none => rfl
  | some x =>
    rw [hread] at h
    refine if_neg fun ho => ?_
    simp only [if_pos (And.intro hsmall ho)] at h
    cases h

theorem compile_none (h : reading R pattern = none) : R.compile pattern = none := by
  rw [Package.compile]
  split
  · exact parse_none h ‹_›
  · rfl

/-- No anchors make an expression of any other text. -/
theorem mendable_of_behind (h : reading R pattern = none) {x : Expr × Level × Expr}
    (hx : readBehind R.unicode pattern.toList = some x) : Mendable R pattern := by
  by_contra hno
  rw [Mendable, not_or, not_or, Bool.not_eq_false] at hno
  obtain ⟨hsmall, hlast, hplain⟩ := hno
  have hparse := parse_none h hsmall
  cases hts : tokens R.unicode pattern.toList.length pattern.toList with
  | none =>
    rw [readBehind, hts, tokens_broken R.unicode hlast hts] at hx
    cases hx
  | some ts =>
    have hbegin : beginsWithRepetition ts = false := by
      by_contra hb
      exact hplain ⟨ts, hts, by simpa using hb⟩
    rw [readBehind_plain R.unicode hts hbegin hparse] at hx
    cases hx

theorem level_full (s : List Rune) (level : Level) :
    level.expr.Full s ↔ ∃ a ∈ level.alternatives, a.Full s := level.expr_spans

/-- Anchors always fit an expression of one alternative, where the dollar sign is
the end of the text. -/
theorem anchorsFit_single {seq : List Expr} (h : reading R pattern = some (⟨[], seq⟩, .endText))
    (hsmall : R.small (anchored pattern) = true) (s : String) : AnchorsFit R s pattern := by
  rw [AnchorsFit, h]
  simp only [if_pos hsmall]
  simp only [Level.alternatives, List.nil_append, List.mem_singleton, exists_eq_left]
  constructor
  · rintro ⟨earlier, a, later, i, j, hl, hi, ha, hbegin, hend⟩
    obtain ⟨rfl, rfl, rfl⟩ : earlier = [] ∧ concat seq = a ∧ later = [] := by
      cases earlier with
      | nil => simpa [Level.alternatives] using hl
      | cons b earlier => simp [Level.alternatives] at hl
    obtain ⟨_, -, rfl, rfl⟩ := hbegin rfl
    obtain ⟨_, rfl, -⟩ := hend rfl
    exact ha
  · intro ha
    exact ⟨[], concat seq, [], 0, _, rfl, Nat.zero_le _, ha, fun _ => ⟨0, le_refl 0, rfl, rfl⟩,
      fun _ => ⟨_, rfl, rfl⟩⟩

/-- What the anchored pattern does, by what is read between its anchors. -/
theorem matchesPattern_behind (cfg : Config) (R : Package) (s pattern : String) :
    matchesPattern (withRegexp cfg R) s pattern = true ↔
      match readBehind R.unicode pattern.toList with
      | some (head, level, tail) =>
        if R.small (anchored pattern) then level.Loosely (runes s) head tail else s = pattern
      | none => s = pattern := by
  rw [matchesPattern_iff]
  by_cases hsmall : R.small (anchored pattern) = true
  · have hreads := compile_anchored hsmall
    cases hx : readBehind R.unicode pattern.toList with
    | none =>
      rw [hx] at hreads
      rw [show R.compile (anchored pattern) = none from hreads]
    | some x =>
      rw [hx] at hreads
      obtain ⟨e, he, hfound⟩ := hreads
      rw [he]
      simp only [if_pos hsmall]
      exact hfound (runes s)
  · have hlarge : R.compile (anchored pattern) = none := if_neg hsmall
    rw [hlarge]
    simp only [if_neg hsmall]
    split <;> rfl

theorem anchors_fit_iff (cfg : Config) (R : Package) (s pattern : String) :
    (matchesPattern (withRegexp cfg R) s pattern = true ↔ MatchesFully R s pattern) ↔
      AnchorsFit R s pattern := by
  rw [matchesPattern_behind, MatchesFully, AnchorsFit]
  cases hread : reading R pattern with
  | none =>
    rw [compile_none hread]
    cases hx : readBehind R.unicode pattern.toList with
    | none => exact ⟨fun _ _ _ _ _ _ h => (by cases h), fun _ => Iff.rfl⟩
    | some x =>
      have hmend := mendable_of_behind hread hx
      obtain ⟨head, level, tail⟩ := x
      simp only
      constructor
      · intro h _ hsmall head' level' tail' he
        cases he
        rwa [if_pos hsmall] at h
      · intro h
        split
        · exact h hmend ‹_› head level tail rfl
        · rfl
  | some x =>
    obtain ⟨level, tail⟩ := x
    obtain ⟨hcompile, hbehind⟩ := compile_reading hread
    rw [hcompile, hbehind]
    simp only [level_full]
    split <;> rfl

/-- **Patterns.** On a text and a pattern the anchored expression does what the
pattern says exactly when the anchors fit. So an error is not retryable by a
pattern only when its type or its message matches fully, where they do. -/
theorem matchesPattern_full_iff (cfg : Config) (R : Package) :
    (∀ s pattern, (matchesPattern (withRegexp cfg R) s pattern = true ↔ MatchesFully R s pattern) ↔
      AnchorsFit R s pattern) ∧
    ∀ (e : JobError) (policy : RetryPolicy), e.retryable ≠ some false →
      (∀ pattern ∈ policy.nonRetryableErrors, ∀ s ∈ [errorType e, e.message], AnchorsFit R s pattern) →
      (isNonRetryable (withRegexp cfg R) (some e) (some policy) = true ↔
        ∃ pattern ∈ policy.nonRetryableErrors,
          MatchesFully R (errorType e) pattern ∨ MatchesFully R e.message pattern) := by
  have hfit := anchors_fit_iff cfg R
  refine ⟨hfit, fun e policy hretryable hall => ?_⟩
  have hmatch : ∀ pattern ∈ policy.nonRetryableErrors,
      (matchesPattern (withRegexp cfg R) (errorType e) pattern = true ↔
        MatchesFully R (errorType e) pattern) ∧
      (matchesPattern (withRegexp cfg R) e.message pattern = true ↔
        MatchesFully R e.message pattern) := by
    intro pattern hp
    exact ⟨(hfit _ _).mpr (hall pattern hp _ (by simp)), (hfit _ _).mpr (hall pattern hp _ (by simp))⟩
  rw [isNonRetryable]
  simp only [if_neg hretryable, List.any_eq_true, Bool.or_eq_true]
  refine exists_congr fun pattern => and_congr_right fun hp => ?_
  exact or_congr (hmatch pattern hp).1 (hmatch pattern hp).2

/-! ## One package -/

/-- Letters and signs that fold to themselves only, without tables. -/
def plainUnicode : Unicode where
  orbit := fun _ => []
  table := fun _ => none
  noDollar := rfl

def plainPackage : Package where
  unicode := plainUnicode
  small := fun _ => true

def authError : JobError := { type := "AuthError", message := "denied" }
def authPolicy : RetryPolicy := { nonRetryableErrors := ["Auth.*"] }

theorem authError_nonRetryable :
    isNonRetryable (withRegexp demo plainPackage) (some authError) (some authPolicy) = true := by
  have hpatterns := matchesPattern_full_iff demo plainPackage
  have hfit : ∀ pattern ∈ authPolicy.nonRetryableErrors, ∀ s ∈ [errorType authError, authError.message],
      AnchorsFit plainPackage s pattern := by
    intro pattern hp s _
    obtain rfl := List.mem_singleton.mp hp
    exact anchorsFit_single rfl rfl s
  refine (hpatterns.2 authError authPolicy (by decide) hfit).mpr ⟨"Auth.*", by decide, .inl ?_⟩
  decide

/-- The second anchor is not behind the first alternative. -/
theorem alternatives_split : ¬ ∀ (cfg : Config) (R : Package) (s pattern : String),
    (matchesPattern (withRegexp cfg R) s pattern = true ↔ MatchesFully R s pattern) := by
  intro h
  have hmatch : matchesPattern (withRegexp demo plainPackage) "ax" "a|b" = true := by decide
  have hfull := (h demo plainPackage "ax" "a|b").mp hmatch
  exact absurd hfull (by decide)

end OjsSqs
