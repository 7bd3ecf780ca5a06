import OjsSqs.Json.Scanner

/-! # JSON text without white space

`compact` leaves the white space between tokens out, and it writes the
characters that HTML or JavaScript would take for its own as escapes. The result
is valid where the text was, it has no white space left, and compacting it again
changes nothing. -/
namespace Json
open Scan

/-! ## Compacting -/

/-- The digit of a number below 16. -/
def hexDigit (n : UInt8) : UInt8 := if n < 10 then byte '0' + n else byte 'a' + (n - 10)

def isHTML (c : UInt8) : Bool := c = byte '<' || c = byte '>' || c = byte '&'

def escapeHTML (c : UInt8) : Bytes := bytes "\\u00" ++ [hexDigit (c >>> 4), hexDigit (c &&& 0xF)]

/-- The last byte of U+2028 or U+2029, when the text begins with one of them. -/
def lineSeparator : Bytes → Option UInt8
  | a :: b :: d :: _ => if a = 0xE2 ∧ b = 0x80 ∧ d &&& 0xFE = 0xA8 then some d else none
  | _ => none

def escapeSeparator (d : UInt8) : Bytes := bytes "\\u202" ++ [hexDigit (d &&& 0xF)]

/-- `appendCompact` with escapes, from a state of the scanner; the next `skip`
bytes are those of an escaped separator. -/
def compactFrom (limit skip : Nat) (s : Scan) : Bytes → Option Bytes
  | [] => if s.eof then some [] else none
  | c :: rest => match s.step limit c with
    | none => none
    | some (op, s') => match skip with
      | skip + 1 => compactFrom limit skip s' rest
      | 0 =>
        if isHTML c then (compactFrom limit 0 s' rest).map (escapeHTML c ++ ·)
        else match lineSeparator (c :: rest) with
          | some d => (compactFrom limit 2 s' rest).map (escapeSeparator d ++ ·)
          | none =>
            if op.isSpace then compactFrom limit 0 s' rest
            else (compactFrom limit 0 s' rest).map (c :: ·)

def compact (limit : Nat) (text : Bytes) : Option Bytes := compactFrom limit 0 start text

/-! ## Literals and single bytes -/

/-- What holds of every byte of a list. -/
theorem all_mem {P : UInt8 → Prop} [DecidablePred P] {text : Bytes}
    (h : text.all (fun c => P c) = true) {c : UInt8} (hc : c ∈ text) : P c :=
  of_decide_eq_true (List.all_eq_true.mp h c hc)

/-- The literals that end before a byte that is not theirs. -/
def Literal.closes : Literal → Bool
  | .one | .zero | .dot0 | .e0 => true
  | _ => false

theorem Literal.closes_of_ended {l : Literal} {c : UInt8} (h : l.next c = .ended) :
    l.closes = true := by
  cases l <;> simp only [Literal.next, nextZero, nextHex, nextESign, nextLetter] at h <;>
    first
    | rfl
    | (split_ifs at h)

/-- The bytes that may follow a value. -/
def follows (c : UInt8) : Bool :=
  isSpace c || c = byte ':' || c = byte ',' || c = byte '}' || c = byte ']'

theorem follows_iff {c : UInt8} : follows c = true ↔
    c ∈ [byte ' ', byte '\t', byte '\r', byte '\n', byte ':', byte ',', byte '}', byte ']'] := by
  simp [follows, isSpace, or_assoc]

theorem Literal.ended_of_follows {l : Literal} (hl : l.closes = true) {c : UInt8}
    (hc : follows c = true) : l.next c = .ended := by
  have hall : [byte ' ', byte '\t', byte '\r', byte '\n', byte ':', byte ',', byte '}',
      byte ']'].all (fun c => l.next c = .ended) = true := by
    cases l <;> first | (cases hl; done) | decide
  exact all_mem hall (follows_iff.mp hc)

/-! ## The parts of a step -/

section
variable {limit : Nat} {c : UInt8} {s s' : Scan} {stack : List ParseState} {op : Op}

/-- What ends a value begins no other text, and only white space is skipped. -/
theorem endTop_op (h : endTop c stack = some (op, s')) : op.isSpace = isSpace c ∧ follows c = true := by
  rw [endTop] at h
  split_ifs at h with hs
  cases h
  exact ⟨hs.symm, by rw [follows, hs]; rfl⟩

theorem endValue_op (h : endValue c stack = some (op, s')) :
    op.isSpace = isSpace c ∧ follows c = true := by
  cases stack with
  | nil => exact endTop_op h
  | cons p rest =>
    simp only [endValue] at h
    cases hs : isSpace c with
    | true =>
      rw [hs] at h
      cases h
      exact ⟨rfl, by rw [follows, hs]; rfl⟩
    | false =>
      rw [hs] at h
      cases p <;> simp only [Bool.false_eq_true, if_false] at h <;> split_ifs at h <;> cases h <;>
        exact ⟨rfl, by simp [follows, *]⟩

theorem beginValue_op (h : beginValue limit c s = some (op, s')) : op.isSpace = isSpace c := by
  simp only [beginValue, push] at h
  cases hs : isSpace c with
  | true =>
    rw [hs] at h
    cases h
    rfl
  | false =>
    rw [hs] at h
    simp only [Bool.false_eq_true, if_false] at h
    split_ifs at h
    · cases h
      rfl
    · cases h
      rfl
    · cases hl : startLiteral c <;> rw [hl] at h <;> cases h
      rfl

theorem beginString_op (h : beginString c s = some (op, s')) : op.isSpace = isSpace c := by
  simp only [beginString] at h
  cases hs : isSpace c with
  | true =>
    rw [hs] at h
    cases h
    rfl
  | false =>
    rw [hs] at h
    simp only [Bool.false_eq_true, if_false] at h
    split_ifs at h
    cases h
    rfl

/-- White space after a value. -/
theorem endValue_space (hs : isSpace c = true) : endValue c stack =
    some (if stack.isEmpty then .end' else .skipSpace,
      ⟨if stack.isEmpty then .endTop else .endValue, stack⟩) := by
  cases stack with
  | nil => exact if_pos hs
  | cons p rest =>
    simp only [endValue]
    exact if_pos hs

end

/-- Bytes that stand for themselves in a string, and nowhere else. -/
def stringBytes : Bytes := [byte '<', byte '>', byte '&', 0xE2, 0x80, 0xA8, 0xA9]

theorem mem_stringBytes_of_isHTML {c : UInt8} (h : isHTML c = true) : c ∈ stringBytes := by
  simp only [isHTML, Bool.or_eq_true, decide_eq_true_eq] at h
  rcases h with (rfl | rfl) | rfl <;> decide

theorem step_stringByte {limit : Nat} {c : UInt8} {s s' : Scan} {op : Op} (hc : c ∈ stringBytes)
    (h : s.step limit c = some (op, s')) : s.mode = .lit .inString ∧ s' = s ∧ op = .continue' := by
  have hf : follows c = false := all_mem (P := (follows · = false)) (by decide) hc
  have hend : ∀ stack, endValue c stack = none := fun stack => by
    cases hv : endValue c stack with
    | none => rfl
    | some x =>
      rw [(endValue_op hv).2] at hf
      cases hf
  have hbegin : ∀ s, beginValue limit c s = none := by
    have hall : isSpace c = false ∧ c ≠ byte '{' ∧ c ≠ byte '[' ∧ startLiteral c = none :=
      all_mem (P := fun c => isSpace c = false ∧ c ≠ byte '{' ∧ c ≠ byte '[' ∧ startLiteral c = none)
        (by decide) hc
    intro s
    simp [beginValue, hall]
  have hkey : ∀ s, beginString c s = none := by
    have hall : isSpace c = false ∧ c ≠ byte '"' :=
      all_mem (P := fun c => isSpace c = false ∧ c ≠ byte '"') (by decide) hc
    intro s
    simp [beginString, hall]
  have htop : ∀ stack, endTop c stack = none := fun stack => by
    cases hv : endTop c stack with
    | none => rfl
    | some x =>
      rw [(endTop_op hv).2] at hf
      cases hf
  obtain ⟨mode, stack⟩ := s
  cases mode with
  | lit l =>
    have hall : stringBytes.all (fun c => l.next c = .bad ∨ l.next c = .ended ∨
        l = .inString ∧ l.next c = .more .inString) = true := by
      clear h
      cases l <;> decide
    have hlit := all_mem hall hc
    simp only [step] at h
    rcases hlit with hl | hl | ⟨rfl, hl⟩
    · rw [hl] at h
      cases h
    · rw [hl] at h
      simp only [hend] at h
      cases h
    · rw [hl] at h
      cases h
      exact ⟨rfl, rfl, rfl⟩
  | beginStringOrEmpty => cases stack <;> simp [step, hend, hkey] at h
  | _ =>
    simp only [step, hend, hbegin, hkey, htop, ite_self] at h
    cases h

/-! ## Behind by some white space -/

/-- A state, and one that has seen white space since. -/
inductive Behind : Scan → Scan → Prop
  | same (s : Scan) : Behind s s
  | number {l : Literal} (hl : l.closes = true) (p : ParseState) (rest : List ParseState) :
      Behind ⟨.lit l, p :: rest⟩ ⟨.endValue, p :: rest⟩
  | topNumber {l : Literal} (hl : l.closes = true) : Behind ⟨.lit l, []⟩ ⟨.endTop, []⟩
  | top : Behind ⟨.endValue, []⟩ ⟨.endTop, []⟩

section
variable {limit : Nat} {c : UInt8} {s s' s₂ : Scan} {op : Op}

/-- White space leaves a state as it is, or it completes a value. -/
theorem step_space (h : s.step limit c = some (op, s')) (hop : op.isSpace = true) : Behind s s' := by
  obtain ⟨mode, stack⟩ := s
  have hbracket : ∀ {st}, endValue c st = some (op, s') → c ≠ byte ']' ∧ c ≠ byte '}' := fun h => by
    have hs := (endValue_op h).1.symm.trans hop
    constructor <;> rintro rfl <;> cases hs
  have hbegin : beginValue limit c ⟨mode, stack⟩ = some (op, s') → s' = ⟨mode, stack⟩ := fun h => by
    have hs := (beginValue_op h).symm.trans hop
    simp only [beginValue, hs, if_true, Option.some.injEq, Prod.mk.injEq] at h
    exact h.2.symm
  have hkey : beginString c ⟨mode, stack⟩ = some (op, s') → s' = ⟨mode, stack⟩ := fun h => by
    have hs := (beginString_op h).symm.trans hop
    simp only [beginString, hs, if_true, Option.some.injEq, Prod.mk.injEq] at h
    exact h.2.symm
  have hend : ∀ {st}, endValue c st = some (op, s') →
      s' = ⟨if st.isEmpty then .endTop else .endValue, st⟩ := fun h => by
    rw [endValue_space ((endValue_op h).1.symm.trans hop)] at h
    exact (Prod.mk.inj (Option.some.inj h)).2.symm
  cases mode with
  | beginValueOrEmpty =>
    simp only [step] at h
    split_ifs at h with hc
    · exact absurd hc (hbracket h).1
    · rw [hbegin h]
      exact .same _
  | beginValue =>
    rw [hbegin h]
    exact .same _
  | beginStringOrEmpty =>
    simp only [step] at h
    split_ifs at h with hc
    · cases stack with
      | nil => cases h
      | cons p rest => exact absurd hc (hbracket h).2
    · rw [hkey h]
      exact .same _
  | beginString =>
    rw [hkey h]
    exact .same _
  | endValue =>
    rw [hend h]
    cases stack with
    | nil => exact .top
    | cons p rest => exact .same _
  | endTop =>
    simp only [step, endTop] at h
    split_ifs at h
    cases h
    exact .same _
  | lit l =>
    simp only [step] at h
    cases hl : l.next c with
    | ended =>
      rw [hl] at h
      rw [hend h]
      cases stack with
      | nil => exact .topNumber (Literal.closes_of_ended hl)
      | cons p rest => exact .number (Literal.closes_of_ended hl) p rest
    | more | last =>
      rw [hl] at h
      cases h
      cases hop
    | bad =>
      rw [hl] at h
      cases h

/-- A token that is right after the white space is right without it. -/
theorem step_behind (hb : Behind s₂ s) (h : s.step limit c = some (op, s')) (hop : op.isSpace = false) :
    s₂.step limit c = some (op, s') := by
  have htop : ∀ {stack}, endTop c stack ≠ some (op, s') := fun {stack} h => by
    have hs := (endTop_op h).1.symm.trans hop
    rw [endTop, hs] at h
    cases h
  cases hb with
  | same => exact h
  | number hl p rest =>
    replace h : endValue c (p :: rest) = some (op, s') := h
    simp only [step, Literal.ended_of_follows hl (endValue_op h).2]
    exact h
  | topNumber | top => exact absurd h htop

/-- Two steps of white space. -/
theorem Behind.trans {a b d : Scan} (h : Behind a b) (h' : Behind b d) : Behind a d := by
  cases h' with
  | same => exact h
  | number hl p rest =>
    cases h with
    | same => exact .number hl p rest
  | topNumber hl =>
    cases h with
    | same => exact .topNumber hl
  | top =>
    cases h with
    | same => exact .top

/-- The states that end a text. -/
theorem eof_iff : s.eof = true ↔
    s.mode = .endTop ∨ s.stack = [] ∧ (s.mode = .endValue ∨ ∃ l, s.mode = .lit l ∧ l.closes = true) := by
  obtain ⟨mode, stack⟩ := s
  have hspace : isSpace (byte ' ') = true := by decide
  have hbegin : beginValue 0 (byte ' ') ⟨mode, stack⟩ = some (.skipSpace, ⟨mode, stack⟩) := if_pos hspace
  have hkey : beginString (byte ' ') ⟨mode, stack⟩ = some (.skipSpace, ⟨mode, stack⟩) := if_pos hspace
  have hend : completes (endValue (byte ' ') stack) = true ↔ stack = [] := by
    rw [endValue_space hspace]
    cases stack <;> simp [completes]
  cases mode with
  | beginValueOrEmpty =>
    have hc : byte ' ' ≠ byte ']' := by decide
    simp [eof, step, if_neg hc, hbegin, completes]
  | beginValue =>
    simp [eof, step, hbegin, completes]
  | beginStringOrEmpty =>
    have hc : byte ' ' ≠ byte '}' := by decide
    simp [eof, step, if_neg hc, hkey, completes]
  | beginString =>
    simp [eof, step, hkey, completes]
  | endValue => simpa [eof, step] using hend
  | endTop => simp [eof]
  | lit l =>
    cases hl : l.closes with
    | true =>
      simp only [eof, step, Literal.ended_of_follows hl (show follows (byte ' ') = true by decide)]
      simpa [hl] using hend
    | false =>
      have hnot : l.next (byte ' ') ≠ .ended := fun h => by
        rw [Literal.closes_of_ended h] at hl
        cases hl
      simp only [eof, step]
      cases hn : l.next (byte ' ') with
      | ended => exact absurd hn hnot
      | _ => simp [hl, completes]

theorem eof_behind (hb : Behind s₂ s) (h : s.eof = true) : s₂.eof = true := by
  rw [eof_iff] at h ⊢
  cases hb with
  | same => exact h
  | number hl p rest => rcases h with h | ⟨h, -⟩ <;> cases h
  | topNumber hl => exact .inr ⟨rfl, .inr ⟨_, rfl, hl⟩⟩
  | top => exact .inr ⟨rfl, .inl rfl⟩

end

/-! ## Texts without white space -/

/-- The machine takes the text from the state on, no byte of it is white space
between tokens, and the text is complete. -/
def Tight (limit : Nat) : Scan → Bytes → Prop
  | s, [] => s.eof = true
  | s, c :: rest => ∃ op s', s.step limit c = some (op, s') ∧ op.isSpace = false ∧ Tight limit s' rest

section
variable {limit skip : Nat} {c : UInt8} {s s₂ : Scan} {text out : Bytes}

theorem lineSeparator_eq {d : UInt8} (h : lineSeparator text = some d) :
    ∃ rest, text = 0xE2 :: 0x80 :: d :: rest ∧ (d = 0xA8 ∨ d = 0xA9) := by
  match text, h with
  | a :: b :: x :: rest, h =>
    rw [lineSeparator] at h
    obtain ⟨⟨rfl, rfl, hx⟩, hd⟩ := Option.ite_none_right_eq_some.mp h
    cases hd
    have hall : ∀ n : Fin 256, UInt8.ofFin n &&& 0xFE = 0xA8 →
        UInt8.ofFin n = 0xA8 ∨ UInt8.ofFin n = 0xA9 := by decide +kernel
    exact ⟨rest, rfl, hall d.toFin hx⟩

/-- An escape in a string. -/
theorem tight_unicode {stack : List ParseState} {a b d e : UInt8} (ha : isHex a = true)
    (hb : isHex b = true) (hd : isHex d = true) (he : isHex e = true)
    (h : Tight limit ⟨.lit .inString, stack⟩ text) :
    Tight limit ⟨.lit .inString, stack⟩ (byte '\\' :: byte 'u' :: a :: b :: d :: e :: text) := by
  have hdigit : ∀ {l l' : Literal} {x : UInt8}, l.next x = nextHex l' x → isHex x = true →
      step limit x ⟨.lit l, stack⟩ = some (.continue', ⟨.lit l', stack⟩) := fun hl hx => by
    simp only [step, hl, nextHex, hx, if_true]
  exact ⟨_, _, rfl, rfl, _, _, rfl, rfl, _, _, hdigit rfl ha, rfl, _, _, hdigit rfl hb, rfl,
    _, _, hdigit rfl hd, rfl, _, _, hdigit rfl he, rfl, h⟩

theorem tight_escapeHTML {stack : List ParseState} (hc : isHTML c = true)
    (h : Tight limit ⟨.lit .inString, stack⟩ text) :
    Tight limit ⟨.lit .inString, stack⟩ (escapeHTML c ++ text) := by
  simp only [isHTML, Bool.or_eq_true, decide_eq_true_eq] at hc
  rcases hc with (rfl | rfl) | rfl <;>
    exact tight_unicode (by decide) (by decide) (by decide) (by decide) h

theorem tight_escapeSeparator {stack : List ParseState} {d : UInt8} (hd : d = 0xA8 ∨ d = 0xA9)
    (h : Tight limit ⟨.lit .inString, stack⟩ text) :
    Tight limit ⟨.lit .inString, stack⟩ (escapeSeparator d ++ text) := by
  rcases hd with rfl | rfl <;>
    exact tight_unicode (by decide) (by decide) (by decide) (by decide) h

theorem behind_inString {stack : List ParseState} (hb : Behind s₂ ⟨.lit .inString, stack⟩) :
    s₂ = ⟨.lit .inString, stack⟩ := by
  cases hb
  rfl

/-- What compacting leaves of a text is tight, also from a state before white
space. -/
theorem compactFrom_tight (h : compactFrom limit skip s text = some out) (hb : Behind s₂ s)
    (hskip : ∀ c ∈ text.take skip, c ∈ stringBytes) : Tight limit s₂ out := by
  induction text generalizing skip s s₂ out with
  | nil =>
    obtain ⟨he, ho⟩ := Option.ite_none_right_eq_some.mp h
    cases ho
    exact eof_behind hb he
  | cons c rest ih =>
    rw [compactFrom] at h
    cases hstep : s.step limit c with
    | none =>
      rw [hstep] at h
      cases h
    | some x =>
      obtain ⟨op, s'⟩ := x
      rw [hstep] at h
      cases skip with
      | succ skip =>
        -- a byte of an escaped separator
        obtain ⟨-, rfl, -⟩ := step_stringByte (hskip c (List.mem_cons_self ..)) hstep
        exact ih h hb fun x hx => hskip x (List.mem_cons_of_mem _ hx)
      | zero =>
        simp only at h
        by_cases hc : isHTML c = true
        · rw [if_pos hc] at h
          obtain ⟨out', h', rfl⟩ := Option.map_eq_some_iff.mp h
          obtain ⟨hm, rfl, -⟩ := step_stringByte (mem_stringBytes_of_isHTML hc) hstep
          obtain ⟨mode, stack⟩ := s'
          obtain rfl : mode = .lit .inString := hm
          rw [behind_inString hb]
          exact tight_escapeHTML hc (ih h' (.same _) fun x hx => by simp at hx)
        · rw [if_neg hc] at h
          cases hsep : lineSeparator (c :: rest) with
          | some d =>
            rw [hsep] at h
            obtain ⟨out', h', rfl⟩ := Option.map_eq_some_iff.mp h
            obtain ⟨rest', hrest, hd⟩ := lineSeparator_eq hsep
            obtain ⟨rfl, rfl⟩ := List.cons.inj hrest
            obtain ⟨hm, rfl, -⟩ := step_stringByte (by decide) hstep
            obtain ⟨mode, stack⟩ := s'
            obtain rfl : mode = .lit .inString := hm
            rw [behind_inString hb]
            refine tight_escapeSeparator hd (ih h' (.same _) fun x hx => ?_)
            simp only [List.take_succ_cons, List.take_zero, List.mem_cons, List.not_mem_nil,
              or_false] at hx
            rcases hx with rfl | rfl
            · decide
            · rcases hd with rfl | rfl <;> decide
          | none =>
            rw [hsep] at h
            simp only at h
            cases hop : op.isSpace with
            | true =>
              rw [hop] at h
              exact ih h (hb.trans (step_space hstep hop)) fun x hx => by simp at hx
            | false =>
              rw [hop] at h
              obtain ⟨out', h', rfl⟩ := Option.map_eq_some_iff.mp h
              exact ⟨op, s', step_behind hb hstep hop, hop, ih h' (.same _) fun x hx => by simp at hx⟩

theorem compact_tight (h : compact limit text = some out) : Tight limit start out :=
  compactFrom_tight h (.same _) fun x hx => by simp at hx

theorem tight_run (h : Tight limit s text) : ∃ s', s.run limit text = some s' ∧ s'.eof = true := by
  induction text generalizing s with
  | nil => exact ⟨s, rfl, h⟩
  | cons c rest ih =>
    obtain ⟨op, s', hstep, -, hrest⟩ := h
    obtain ⟨s'', hrun, he⟩ := ih hrest
    refine ⟨s'', ?_, he⟩
    rw [run, List.foldlM_cons, hstep]
    exact hrun

/-- What is compacted is valid. -/
theorem Tight.valid (h : Tight limit start text) : valid limit text = true := by
  obtain ⟨s, hrun, he⟩ := tight_run h
  rw [Json.valid, hrun]
  exact he

/-- A text can be compacted when it is valid. -/
theorem compactFrom_isSome : (compactFrom limit skip s text).isSome = true ↔
    ∃ s', s.run limit text = some s' ∧ s'.eof = true := by
  induction text generalizing skip s with
  | nil =>
    rw [compactFrom]
    simp [run]
  | cons c rest ih =>
    rw [compactFrom, run, List.foldlM_cons]
    cases hstep : s.step limit c with
    | none => simp
    | some x =>
      obtain ⟨op, s'⟩ := x
      cases skip with
      | succ skip => exact ih
      | zero =>
        simp only
        split_ifs
        · rw [Option.isSome_map]
          exact ih
        · cases lineSeparator (c :: rest) with
          | some d =>
            rw [Option.isSome_map]
            exact ih
          | none => exact ih
        · cases lineSeparator (c :: rest) with
          | some d =>
            rw [Option.isSome_map]
            exact ih
          | none =>
            rw [Option.isSome_map]
            exact ih

theorem compact_isSome : (compact limit text).isSome = valid limit text := by
  rw [Bool.eq_iff_iff, compact, compactFrom_isSome, valid]
  cases start.run limit text <;> simp

/-! ## Compacting again -/

/-- Nothing in the text would be escaped. -/
def Escaped : Bytes → Prop
  | [] => True
  | c :: rest => isHTML c = false ∧ lineSeparator (c :: rest) = none ∧ Escaped rest

theorem escaped_append {start : Bytes}
    (hs : start.all (fun c => isHTML c = false ∧ c ≠ 0xE2) = true) (h : Escaped text) :
    Escaped (start ++ text) := by
  induction start with
  | nil => exact h
  | cons c rest ih =>
    obtain ⟨hhtml, hc⟩ := all_mem hs (List.mem_cons_self ..)
    refine ⟨hhtml, ?_, ih (Bool.and_eq_true_iff.mp hs).2⟩
    cases hsep : lineSeparator (c :: (rest ++ text)) with
    | none => rfl
    | some d =>
      obtain ⟨_, he, -⟩ := lineSeparator_eq hsep
      exact absurd (List.cons.inj he).1 hc

/-- A byte of a string's own that is left at the front was at the front. -/
theorem compactFrom_head {stack : List ParseState} (hc : c ∈ stringBytes)
    (h : compactFrom limit 0 ⟨.lit .inString, stack⟩ text = some (c :: out)) :
    ∃ rest, text = c :: rest ∧ compactFrom limit 0 ⟨.lit .inString, stack⟩ rest = some out := by
  have hne : c ≠ byte '\\' := all_mem (P := (· ≠ byte '\\')) (by decide) hc
  cases text with
  | nil =>
    obtain ⟨-, ho⟩ := Option.ite_none_right_eq_some.mp h
    cases ho
  | cons x rest =>
    rw [compactFrom] at h
    cases hstep : step limit x ⟨.lit .inString, stack⟩ with
    | none =>
      rw [hstep] at h
      cases h
    | some y =>
      obtain ⟨op, s'⟩ := y
      rw [hstep] at h
      simp only at h
      by_cases hhtml : isHTML x = true
      · rw [if_pos hhtml] at h
        obtain ⟨out', -, ho⟩ := Option.map_eq_some_iff.mp h
        exact absurd (List.cons.inj ho).1.symm hne
      · rw [if_neg hhtml] at h
        cases hsep : lineSeparator (x :: rest) with
        | some d =>
          rw [hsep] at h
          obtain ⟨out', -, ho⟩ := Option.map_eq_some_iff.mp h
          exact absurd (List.cons.inj ho).1.symm hne
        | none =>
          rw [hsep] at h
          have hop : op.isSpace = false := by
            cases hop : op.isSpace with
            | false => rfl
            | true =>
              -- white space in a string is its own
              simp only [step] at hstep
              cases hn : Literal.next .inString x with
              | ended =>
                have hl := Literal.closes_of_ended hn
                cases hl
              | bad =>
                rw [hn] at hstep
                cases hstep
              | more | last =>
                rw [hn] at hstep
                cases hstep
                cases hop
          simp only [hop, Bool.false_eq_true, if_false] at h
          obtain ⟨out', h', ho⟩ := Option.map_eq_some_iff.mp h
          obtain ⟨rfl, rfl⟩ := List.cons.inj ho
          obtain ⟨-, rfl, -⟩ := step_stringByte hc hstep
          exact ⟨rest, rfl, h'⟩

theorem escaped_escapeHTML (hc : isHTML c = true) (h : Escaped text) : Escaped (escapeHTML c ++ text) := by
  simp only [isHTML, Bool.or_eq_true, decide_eq_true_eq] at hc
  rcases hc with (rfl | rfl) | rfl <;> exact escaped_append (by decide) h

theorem escaped_escapeSeparator {d : UInt8} (hd : d = 0xA8 ∨ d = 0xA9) (h : Escaped text) :
    Escaped (escapeSeparator d ++ text) := by
  rcases hd with rfl | rfl <;> exact escaped_append (by decide) h

theorem compactFrom_escaped (h : compactFrom limit skip s text = some out) : Escaped out := by
  induction text generalizing skip s out with
  | nil =>
    obtain ⟨-, ho⟩ := Option.ite_none_right_eq_some.mp h
    cases ho
    trivial
  | cons c rest ih =>
    rw [compactFrom] at h
    cases hstep : s.step limit c with
    | none =>
      rw [hstep] at h
      cases h
    | some x =>
      obtain ⟨op, s'⟩ := x
      rw [hstep] at h
      cases skip with
      | succ skip => exact ih h
      | zero =>
        simp only at h
        cases hc : isHTML c with
        | true =>
          rw [hc] at h
          obtain ⟨out', h', rfl⟩ := Option.map_eq_some_iff.mp h
          exact escaped_escapeHTML hc (ih h')
        | false =>
          rw [hc] at h
          simp only [Bool.false_eq_true, if_false] at h
          cases hsep : lineSeparator (c :: rest) with
          | some d =>
            rw [hsep] at h
            obtain ⟨out', h', rfl⟩ := Option.map_eq_some_iff.mp h
            obtain ⟨-, -, hd⟩ := lineSeparator_eq hsep
            exact escaped_escapeSeparator hd (ih h')
          | none =>
            rw [hsep] at h
            simp only at h
            split_ifs at h with hop
            · exact ih h
            · obtain ⟨out', h', rfl⟩ := Option.map_eq_some_iff.mp h
              refine ⟨hc, ?_, ih h'⟩
              cases hout : lineSeparator (c :: out') with
              | none => rfl
              | some d =>
                -- the separator would have been there before
                obtain ⟨t, ht, hd⟩ := lineSeparator_eq hout
                obtain ⟨rfl, rfl⟩ := List.cons.inj ht
                obtain ⟨hm, rfl, -⟩ := step_stringByte (by decide) hstep
                obtain ⟨mode, stack⟩ := s'
                obtain rfl : mode = .lit .inString := hm
                obtain ⟨rest₁, rfl, h₁⟩ := compactFrom_head (by decide) h'
                obtain ⟨rest₂, rfl, -⟩ := compactFrom_head
                  (by rcases hd with rfl | rfl <;> decide) h₁
                rcases hd with rfl | rfl <;> cases hsep

/-- A tight text with nothing to escape stays as it is. -/
theorem compactFrom_of_tight (h : Tight limit s text) (he : Escaped text) :
    compactFrom limit 0 s text = some text := by
  induction text generalizing s with
  | nil => exact if_pos h
  | cons c rest ih =>
    obtain ⟨op, s', hstep, hop, hrest⟩ := h
    obtain ⟨hc, hsep, he⟩ := he
    rw [compactFrom, hstep]
    simp only [hc, hsep, hop, Bool.false_eq_true, if_false, ih hrest he, Option.map_some]

/-- **Compacting twice** is compacting once. -/
theorem compact_compact (h : compact limit text = some out) : compact limit out = some out :=
  compactFrom_of_tight (compact_tight h) (compactFrom_escaped h)

end

end Json
