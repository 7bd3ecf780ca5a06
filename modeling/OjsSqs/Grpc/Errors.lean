import Mathlib.Data.List.Infix
import Mathlib.Tactic.Common

/-! # The status of an error

The gRPC server gets an error back from the backend and has to choose a status.
It looks for words in the error's text, and the text holds the client's names
and expressions. -/
namespace OjsSqs

/-- An error of a backend call: an `OJSError`, an error wrapped with `%w`, or any
other error, of which only the text is known. -/
inductive BackendError where
  | ojs (code message : String)
  | wrap (context : String) (cause : BackendError)
  | other (text : String)
deriving DecidableEq, Repr

namespace BackendError

/-- `err.Error()`; `ojsText` is the method of `OJSError`. -/
def text (ojsText : String → String → String) : BackendError → String
  | ojs code message => ojsText code message
  | wrap context cause => context ++ ": " ++ cause.text ojsText
  | other text => text

/-- The code of the `OJSError`, bare or wrapped, as `errors.As` finds it. -/
def code? : BackendError → Option String
  | ojs code _ => some code
  | wrap _ cause => cause.code?
  | other _ => none

end BackendError

/-- `codes.Code`, those the server uses for errors of the backend. -/
inductive StatusCode where
  | notFound | alreadyExists | invalidArgument | internal
deriving DecidableEq, Repr

/-! ## The search for words -/

def containsStr (s substr : String) : Bool :=
  (List.range (s.length + 1 - substr.length)).any fun i =>
    (s.toList.drop i).take substr.length = substr.toList

def contains (s substr : String) : Bool :=
  substr.length ≤ s.length && (s = substr || (0 < s.length && containsStr s substr))

def isNotFound (msg : String) : Bool := contains msg "not found" || contains msg "not_found"
def isConflict (msg : String) : Bool :=
  contains msg "conflict" || contains msg "invalid state transition"
def isDuplicate (msg : String) : Bool := contains msg "duplicate" || contains msg "already exists"
def isValidation (msg : String) : Bool :=
  contains msg "invalid" || contains msg "required" || contains msg "validation"

/-- `coreErrorToGRPC`, the code of the status; its message is the error's text. -/
def coreErrorToGRPC (ojsText : String → String → String) (err : BackendError) : StatusCode :=
  let msg := err.text ojsText
  if isNotFound msg then .notFound
  else if isConflict msg then .alreadyExists
  else if isDuplicate msg then .alreadyExists
  else if isValidation msg then .invalidArgument
  else .internal

/-! ## What the status should be -/

/-- The status of an error's code; an error without one is internal. -/
def codeStatus : Option String → StatusCode
  | some "not_found" => .notFound
  | some "conflict" | some "duplicate" => .alreadyExists
  | some "invalid_request" | some "validation_error" => .invalidArgument
  | _ => .internal

/-- The words of each status, in the order in which they are looked for. -/
def notFoundWords : List String := ["not found", "not_found"]
def alreadyExistsWords : List String :=
  ["conflict", "invalid state transition", "duplicate", "already exists"]
def invalidArgumentWords : List String := ["invalid", "required", "validation"]

/-- One of the words is somewhere in the text. -/
def Mentions (words : List String) (text : String) : Prop :=
  ∃ word ∈ words, word.toList <:+: text.toList

/-- The text has a word of this status, and no word that is looked for before
it. -/
def Speaks (text : String) : StatusCode → Prop
  | .notFound => Mentions notFoundWords text
  | .alreadyExists => ¬ Mentions notFoundWords text ∧ Mentions alreadyExistsWords text
  | .invalidArgument => ¬ Mentions notFoundWords text ∧ ¬ Mentions alreadyExistsWords text ∧
      Mentions invalidArgumentWords text
  | .internal => ¬ Mentions notFoundWords text ∧ ¬ Mentions alreadyExistsWords text ∧
      ¬ Mentions invalidArgumentWords text

section
variable {s substr : String}

theorem containsStr_iff : containsStr s substr = true ↔
    substr.length ≤ s.length ∧ substr.toList <:+: s.toList := by
  have hlen : s.toList.length = s.length := String.length_toList
  have hlen' : substr.toList.length = substr.length := String.length_toList
  simp only [containsStr, List.any_eq_true, List.mem_range, decide_eq_true_eq]
  constructor
  · rintro ⟨i, hi, htake⟩
    refine ⟨by omega, s.toList.take i, (s.toList.drop i).drop substr.length, ?_⟩
    rw [← htake, List.append_assoc, List.take_append_drop, List.take_append_drop]
  · rintro ⟨hle, before, after, hs⟩
    have htotal := congrArg List.length hs
    rw [List.length_append, List.length_append] at htotal
    refine ⟨before.length, by omega, ?_⟩
    rw [← hs, List.append_assoc, List.drop_left, ← hlen', List.take_left]

/-- The search finds the word wherever it is. -/
theorem contains_iff : contains s substr = true ↔ substr.toList <:+: s.toList := by
  have hlen : s.toList.length = s.length := String.length_toList
  have hlen' : substr.toList.length = substr.length := String.length_toList
  simp only [contains, Bool.and_eq_true, Bool.or_eq_true, decide_eq_true_eq, containsStr_iff]
  constructor
  · rintro ⟨-, rfl | ⟨-, -, h⟩⟩
    exacts [List.infix_rfl, h]
  · intro h
    have hle := h.length_le
    refine ⟨by omega, ?_⟩
    by_cases hzero : 0 < s.length
    · exact .inr ⟨hzero, by omega, h⟩
    · -- both texts are empty
      refine .inl (String.toList_inj.mp ?_)
      rw [List.eq_nil_of_length_eq_zero (l := s.toList) (by omega),
        List.eq_nil_of_length_eq_zero (l := substr.toList) (by omega)]

theorem isNotFound_iff : isNotFound s = true ↔ Mentions notFoundWords s := by
  simp only [isNotFound, Bool.or_eq_true, contains_iff, Mentions, notFoundWords,
    List.exists_mem_cons_iff, List.not_mem_nil, false_and, exists_false, or_false]

theorem isExisting_iff : isConflict s = true ∨ isDuplicate s = true ↔
    Mentions alreadyExistsWords s := by
  simp only [isConflict, isDuplicate, Bool.or_eq_true, contains_iff, Mentions, alreadyExistsWords,
    List.exists_mem_cons_iff, List.not_mem_nil, false_and, exists_false, or_false, or_assoc]

theorem isValidation_iff : isValidation s = true ↔ Mentions invalidArgumentWords s := by
  simp only [isValidation, Bool.or_eq_true, contains_iff, Mentions, invalidArgumentWords,
    List.exists_mem_cons_iff, List.not_mem_nil, false_and, exists_false, or_false, or_assoc]

end

/-- The text alone decides about the status. -/
theorem coreErrorToGRPC_eq (ojsText : String → String → String) (err : BackendError)
    (c : StatusCode) : coreErrorToGRPC ojsText err = c ↔ Speaks (err.text ojsText) c := by
  rw [coreErrorToGRPC]
  generalize err.text ojsText = msg
  by_cases hfound : Mentions notFoundWords msg
  · simp only [if_pos (isNotFound_iff.mpr hfound)]
    cases c <;> simp [Speaks, hfound]
  · simp only [if_neg (mt isNotFound_iff.mp hfound)]
    by_cases hexists : Mentions alreadyExistsWords msg
    · have hsame : (if isConflict msg = true then StatusCode.alreadyExists
          else if isDuplicate msg = true then .alreadyExists
          else if isValidation msg = true then .invalidArgument else .internal) =
          .alreadyExists := by
        rcases isExisting_iff.mpr hexists with hword | hword
        · rw [if_pos hword]
        · rw [if_pos hword, ite_self]
      rw [hsame]
      cases c <;> simp [Speaks, hfound, hexists]
    · have hnone : ¬ (isConflict msg = true ∨ isDuplicate msg = true) := mt isExisting_iff.mp hexists
      rw [if_neg fun h => hnone (.inl h), if_neg fun h => hnone (.inr h)]
      by_cases hinvalid : Mentions invalidArgumentWords msg
      · rw [if_pos (isValidation_iff.mpr hinvalid)]
        cases c <;> simp [Speaks, hfound, hexists, hinvalid]
      · rw [if_neg (mt isValidation_iff.mp hinvalid)]
        cases c <;> simp [Speaks, hfound, hexists, hinvalid]

/-- **The status of an error** is the one of its code exactly when the text has a
word of that status and none that is looked for before. -/
theorem coreErrorToGRPC_iff (ojsText : String → String → String) (err : BackendError) :
    coreErrorToGRPC ojsText err = codeStatus err.code? ↔
      Speaks (err.text ojsText) (codeStatus err.code?) :=
  coreErrorToGRPC_eq ojsText err _

/-- A cron expression that is refused as invalid is reported as not found. -/
theorem status_of_expression : ¬ ∀ (ojsText : String → String → String) (err : BackendError),
    (∀ code message, message.toList <:+: (ojsText code message).toList) →
    coreErrorToGRPC ojsText err = codeStatus err.code? := by
  intro hall
  have h := hall (fun code message => code ++ ": " ++ message)
    (.ojs "invalid_request" "Invalid cron expression: not found") fun code message =>
      ⟨(code ++ ": ").toList, [], by rw [← String.toList_append, List.append_nil]⟩
  exact absurd h (by decide)

/-- Of two errors with one code the text decides. -/
theorem status_follows_text {ojsText : String → String → String}
    (htext : ∀ code message, message.toList <:+: (ojsText code message).toList) (code : String) :
    coreErrorToGRPC ojsText (.ojs code "not found") = .notFound := by
  have hmentions : Mentions notFoundWords (ojsText code "not found") :=
    ⟨"not found", List.mem_cons_self, htext code "not found"⟩
  exact if_pos (isNotFound_iff.mpr hmentions)

end OjsSqs
