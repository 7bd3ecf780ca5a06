import OjsSqs.Listing.Reads
import Mathlib.Data.List.TakeDrop

/-! # Durations as texts

A duration is written in two ways: as Go writes it (`1m30s`), and as ISO 8601
does (`PT1M30S`). The core policies hold texts; the HTTP API and
`ParseISO8601Duration` mean the second form. -/
namespace OjsSqs

/-! ## The form of Go -/

/-- The digits of a fraction, from the last one on; zeros at the end are left
out. -/
def fracDigits : Nat → Nat → List Char → List Char
  | 0, _, digits => digits
  | prec + 1, v, digits => fracDigits prec (v / 10)
      (if digits = [] ∧ v % 10 = 0 then [] else Nat.digitChar (v % 10) :: digits)

/-- `fmtFrac`: the fraction of `v / 10 ^ prec`, with its point. -/
def fmtFrac (v prec : Nat) : String :=
  match fracDigits prec v [] with
  | [] => ""
  | digits => "." ++ .ofList digits

/-- Minutes and hours are left out when the duration does not reach them. -/
def fmtSeconds (u : Nat) : String :=
  let secs := u / 1000000000
  let hours := if secs / 3600 = 0 then "" else toString (secs / 3600) ++ "h"
  let minutes := if secs / 60 = 0 then "" else toString (secs / 60 % 60) ++ "m"
  hours ++ minutes ++ toString (secs % 60) ++ fmtFrac u 9 ++ "s"

/-- `d.String()` of a `time.Duration` -/
def durationString (d : Time) : String :=
  let u := d.natAbs
  let text :=
    if u = 0 then "0s"
    else if u < 1000 then toString u ++ "ns"
    else if u < 1000000 then toString (u / 1000) ++ fmtFrac u 3 ++ "µs"
    else if u < 1000000000 then toString (u / 1000000) ++ fmtFrac u 6 ++ "ms"
    else fmtSeconds u
  if d < 0 then "-" ++ text else text

/-- `unitMap` -/
def durationUnit : String → Option Nat
  | "ns" => some 1
  | "us" | "µs" | "μs" => some 1000
  | "ms" => some 1000000
  | "s" => some 1000000000
  | "m" => some 60000000000
  | "h" => some 3600000000000
  | _ => none

def decimal (digits : List Char) : Nat :=
  digits.foldl (fun n c => 10 * n + (c.toNat - '0'.toNat)) 0

/-- One number with its unit, and the rest of the text. The source adds a
fraction in floating point, which is exact for the fractions `String` writes. -/
def parseDurationTerm (s : List Char) : Option (Nat × List Char) :=
  let (whole, s) := s.span Char.isDigit
  let (fraction, s) := match s with
    | '.' :: s => s.span Char.isDigit
    | _ => ([], s)
  let (unit, rest) := s.span fun c => !(c.isDigit || c = '.')
  match durationUnit (.ofList unit) with
  | none => none
  | some u =>
    if whole = [] ∧ fraction = [] then none
    else some (decimal whole * u + decimal fraction * u / 10 ^ fraction.length, rest)

/-- The terms of a duration, one after the other; `fuel` is the length of the
text at least. -/
def parseDurationTerms : Nat → List Char → Option Nat
  | _, [] => some 0
  | 0, _ => none
  | fuel + 1, s => match parseDurationTerm s with
    | none => none
    | some (v, rest) => (parseDurationTerms fuel rest).map (v + ·)

/-- The duration without its sign. -/
def parseUnsigned (s : List Char) : Option Nat :=
  if s = ['0'] then some 0
  else if s = [] then none
  else parseDurationTerms s.length s

/-- `time.ParseDuration` -/
def parseDuration (s : String) : Option Time :=
  match s.toList with
  | '-' :: s => (parseUnsigned s).bind fun d => if d ≤ intBound then some (-d) else none
  | '+' :: s => (parseUnsigned s).bind fun d => if d < intBound then some (d : Int) else none
  | s => (parseUnsigned s).bind fun d => if d < intBound then some (d : Int) else none

/-! ## The form of ISO 8601 -/

/-- Numbers with these designators, each at most once and in this order; the
rest of the text is left. -/
def isoFields : List (Char × Nat) → List Char → Nat × List Char
  | [], s => (0, s)
  | (designator, unit) :: fields, s =>
    let (whole, rest) := s.span Char.isDigit
    let (fraction, rest) := match rest with
      | '.' :: rest => rest.span Char.isDigit
      | _ => ([], rest)
    match rest with
    | c :: rest =>
      if c = designator ∧ whole ≠ [] then
        let (n, rest) := isoFields fields rest
        (decimal whole * unit + decimal fraction * unit / 10 ^ fraction.length + n, rest)
      else isoFields fields s
    | [] => isoFields fields s

def isoDate : List (Char × Nat) := [('W', 604800000000000), ('D', 86400000000000)]
def isoTime : List (Char × Nat) :=
  [('H', 3600000000000), ('M', 60000000000), ('S', 1000000000)]

/-- The duration an ISO 8601 text denotes: `P`, weeks and days, and after a `T`
hours, minutes and seconds. -/
def iso8601 (s : String) : Option Time :=
  match s.toList with
  | 'P' :: s =>
    let (date, rest) := isoFields isoDate s
    match rest with
    | [] => if s = [] then none else some date
    | 'T' :: rest =>
      let (time, tail) := isoFields isoTime rest
      if rest = [] ∨ tail ≠ [] then none else some (date + time : Nat)
    | _ => none
  | _ => none

/-! ## No text is of both forms -/

theorem iso8601_head {s : String} {d : Time} (h : iso8601 s = some d) :
    s.toList.head? = some 'P' := by
  rw [iso8601] at h
  split at h
  · rename_i s' hs
    rw [hs]
    rfl
  · cases h

theorem head_toString (n : Nat) : ∃ c, (toString n).toList.head? = some c ∧ c.isDigit = true := by
  have hdigits : (toString n).toList = Nat.toDigits 10 n := by
    rw [Nat.toString_eq_repr, Nat.repr, String.toList_ofList]
  rw [hdigits]
  cases hn : Nat.toDigits 10 n with
  | nil => exact absurd hn (by simp)
  | cons c cs =>
    exact ⟨c, rfl, Nat.isDigit_of_mem_toDigits (by decide) (le_refl 10) (hn ▸ List.mem_cons_self)⟩

/-- A text that begins with a number, or with a sign. -/
def Numeric (s : String) : Prop := ∃ c, s.toList.head? = some c ∧ (c.isDigit = true ∨ c = '-')

theorem Numeric.append {s : String} (h : Numeric s) (t : String) : Numeric (s ++ t) := by
  obtain ⟨c, hc, hdigit⟩ := h
  refine ⟨c, ?_, hdigit⟩
  rw [String.toList_append, List.head?_append, hc]
  rfl

theorem numeric_toString (n : Nat) : Numeric (toString n) := by
  obtain ⟨c, hc, hdigit⟩ := head_toString n
  exact ⟨c, hc, .inl hdigit⟩

theorem numeric_fmtSeconds (u : Nat) : Numeric (fmtSeconds u) := by
  simp only [fmtSeconds]
  generalize u / 1000000000 = secs
  have hseconds : Numeric (toString (secs % 60)) := numeric_toString _
  refine Numeric.append (Numeric.append ?_ _) _
  by_cases hhours : secs / 3600 = 0
  · rw [if_pos hhours, String.empty_append]
    by_cases hminutes : secs / 60 = 0
    · rw [if_pos hminutes, String.empty_append]
      exact hseconds
    · rw [if_neg hminutes]
      exact .append (.append (numeric_toString _) _) _
  · rw [if_neg hhours]
    exact .append (.append (.append (numeric_toString _) _) _) _

/-- Go writes a duration with a number first. -/
theorem numeric_durationString (d : Time) : Numeric (durationString d) := by
  simp only [durationString]
  by_cases hneg : d < 0
  · rw [if_pos hneg]
    exact .append ⟨'-', rfl, .inr rfl⟩ _
  · rw [if_neg hneg]
    split
    · exact ⟨'0', rfl, .inl rfl⟩
    · split
      · exact (numeric_toString _).append _
      · split
        · rw [String.append_assoc]
          exact (numeric_toString _).append _
        · split
          · rw [String.append_assoc]
            exact (numeric_toString _).append _
          · exact numeric_fmtSeconds _

theorem Numeric.not_iso {s : String} (h : Numeric s) (t : Time) : iso8601 s ≠ some t := by
  obtain ⟨c, hc, hdigit⟩ := h
  intro hiso
  rw [iso8601_head hiso, Option.some.injEq] at hc
  subst hc
  exact absurd hdigit (by decide)

/-- Go's text of a duration is no ISO 8601 duration. -/
theorem durationString_not_iso (d t : Time) : iso8601 (durationString d) ≠ some t :=
  (numeric_durationString d).not_iso t

/-- `time.ParseDuration` refuses every ISO 8601 duration. -/
theorem parseDuration_iso {s : String} {t : Time} (h : iso8601 s = some t) :
    parseDuration s = none := by
  obtain ⟨rest, hs⟩ : ∃ rest, s.toList = 'P' :: rest := by
    have hhead := iso8601_head h
    cases hl : s.toList with
    | nil => rw [hl] at hhead; cases hhead
    | cons c rest =>
      rw [hl] at hhead
      cases hhead
      exact ⟨rest, rfl⟩
  -- the first character of a term is a digit or a point
  have hterm : parseDurationTerm ('P' :: rest) = none := by
    have hspan : ('P' :: rest).span Char.isDigit = ([], 'P' :: rest) := by
      rw [List.span_eq_takeWhile_dropWhile]
      rfl
    simp only [parseDurationTerm, hspan]
    split
    · rfl
    · exact if_pos ⟨trivial, rfl⟩
  have hunsigned : parseUnsigned ('P' :: rest) = none := by
    rw [parseUnsigned, if_neg (by simp), if_neg (by simp), List.length_cons]
    simp only [parseDurationTerms, hterm]
  rw [parseDuration, hs]
  change (parseUnsigned ('P' :: rest)).bind _ = none
  rw [hunsigned, Option.bind_none]

end OjsSqs
