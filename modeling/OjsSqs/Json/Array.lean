import Mathlib.Data.List.Forall2
import OjsSqs.Json.Compact

/-! # Arrays of JSON text

An array is written from its compacted elements and read back as the texts of
its elements. Inside the array an element goes through the states it goes
through on its own, with the array at the bottom of the stack: it may therefore
nest one level less than a text on its own. -/
namespace Json
open Scan

/-! ## Writing and reading -/

/-- The encoding of an element; an absent one is `null`. -/
def marshalRaw (limit : Nat) : Option Bytes → Option Bytes
  | none => some (bytes "null")
  | some text => compact limit text

/-- An array of texts. -/
def array (items : List Bytes) : Bytes :=
  byte '[' :: (List.intercalate [byte ','] items ++ [byte ']'])

/-- The encoding of a list of elements. -/
def marshalArray (limit : Nat) (elements : List (Option Bytes)) : Option Bytes :=
  (elements.mapM (marshalRaw limit)).map array

/-- The elements from a state inside an array on, the first of them begun with
the bytes of `item`. White space around an element is not part of it. -/
def collect (limit : Nat) (s : Scan) (item : Bytes) : Bytes → Option (List Bytes)
  | [] => none
  | c :: rest => match s.step limit c with
    | none => none
    | some (op, s') =>
      if s.stack.length = 1 then match op with
        | .skipSpace => collect limit s' item rest
        | .arrayValue => (collect limit s' [] rest).map (item :: ·)
        | .endArray => some (if item.isEmpty then [] else [item])
        | _ => collect limit s' (item ++ [c]) rest
      else collect limit s' (item ++ [c]) rest

/-- The state after an array has been opened. -/
def opened : Scan := ⟨.beginValueOrEmpty, [.arrayValue]⟩

/-- `Unmarshal` into a list of raw texts: an array gives its elements, `null`
none. -/
def unmarshalArray (limit : Nat) (text : Bytes) : Option (List Bytes) :=
  if valid limit text then match text.dropWhile isSpace with
    | c :: rest =>
      if c = byte '[' then collect limit opened [] rest
      else if c = byte 'n' then some []
      else none
    | [] => none
  else none

/-! ## A higher limit -/

section
variable {limit limit' skip : Nat} {c : UInt8} {s s' : Scan} {op : Op} {text out : Bytes}

theorem push_mono (hle : limit ≤ limit') {p : ParseState} {o : Op} {m : Mode} {r : Op × Scan}
    (h : s.push limit p o m = some r) : s.push limit' p o m = some r := by
  simp only [push] at h ⊢
  split_ifs at h with hlt
  rw [if_pos (Nat.lt_of_lt_of_le hlt hle)]
  exact h

theorem beginValue_mono (hle : limit ≤ limit') {r : Op × Scan}
    (h : s.beginValue limit c = some r) : s.beginValue limit' c = some r := by
  simp only [beginValue] at h ⊢
  split_ifs at h ⊢
  · exact h
  · exact push_mono hle h
  · exact push_mono hle h
  · exact h

theorem step_mono (hle : limit ≤ limit') {r : Op × Scan} (h : s.step limit c = some r) :
    s.step limit' c = some r := by
  obtain ⟨mode, stack⟩ := s
  cases mode with
  | beginValue => exact beginValue_mono hle h
  | beginValueOrEmpty =>
    simp only [step] at h ⊢
    split_ifs at h ⊢
    · exact h
    · exact beginValue_mono hle h
  | _ => exact h

theorem compactFrom_mono (hle : limit ≤ limit') (h : compactFrom limit skip s text = some out) :
    compactFrom limit' skip s text = some out := by
  induction text generalizing skip s out with
  | nil => exact h
  | cons c rest ih =>
    rw [compactFrom] at h ⊢
    cases hstep : s.step limit c with
    | none =>
      rw [hstep] at h
      cases h
    | some x =>
      obtain ⟨op, s'⟩ := x
      rw [hstep] at h
      rw [step_mono hle hstep]
      have hmap : ∀ {n : Nat} (first : Bytes), (compactFrom limit n s' rest).map (first ++ ·) = some out →
          (compactFrom limit' n s' rest).map (first ++ ·) = some out := fun first hm => by
        obtain ⟨out', h', rfl⟩ := Option.map_eq_some_iff.mp hm
        rw [ih h', Option.map_some]
      cases skip with
      | succ skip => exact ih h
      | zero =>
        simp only at h ⊢
        split_ifs at h ⊢
        · exact hmap _ h
        · cases hsep : lineSeparator (c :: rest) with
          | some d =>
            rw [hsep] at h
            exact hmap _ h
          | none =>
            rw [hsep] at h
            exact ih h
        · cases hsep : lineSeparator (c :: rest) with
          | some d =>
            rw [hsep] at h
            exact hmap _ h
          | none =>
            rw [hsep] at h
            exact hmap [c] h

theorem compact_mono (hle : limit ≤ limit') (h : compact limit text = some out) :
    compact limit' text = some out :=
  compactFrom_mono hle h

end

/-! ## An element inside an array -/

/-- Inside an array no value is the outermost. -/
def Mode.inArray : Mode → Mode
  | .endTop => .endValue
  | m => m

/-- The state inside an array of an element that is in the state on its own. -/
def Scan.inArray (s : Scan) : Scan := ⟨s.mode.inArray, s.stack ++ [.arrayValue]⟩

/-- Outside every value nothing is open. -/
def Scan.Closed (s : Scan) : Prop := s.mode = .endTop → s.stack = []

section
variable {limit : Nat} {c : UInt8} {s s' : Scan} {stack : List ParseState} {op : Op} {text : Bytes}

theorem pop_inArray (rest : List ParseState) :
    (pop rest).inArray = pop (rest ++ [.arrayValue]) := by
  cases rest <;> rfl

theorem pop_closed (rest : List ParseState) : (pop rest).Closed := by
  cases rest with
  | nil => exact fun _ => rfl
  | cons p rest =>
    intro hm
    cases hm

theorem endValue_inArray (h : endValue c stack = some (op, s')) (hop : op.isSpace = false) :
    endValue c (stack ++ [.arrayValue]) = some (op, s'.inArray) := by
  cases stack with
  | nil =>
    -- only white space follows the outermost value
    simp only [endValue, endTop] at h
    split_ifs at h
    cases h
    cases hop
  | cons p rest =>
    have hs : isSpace c = false := (endValue_op h).1.symm.trans hop
    simp only [endValue, hs, Bool.false_eq_true, if_false] at h
    simp only [List.cons_append, endValue, hs, Bool.false_eq_true, if_false]
    cases p <;> simp only at h ⊢ <;> split_ifs at h ⊢ <;> cases h <;>
      first
      | rfl
      | rw [pop_inArray]

theorem push_inArray {p : ParseState} {o : Op} {m : Mode} (hm : m ≠ .endTop)
    (h : s.push limit p o m = some (op, s')) :
    s.inArray.push (limit + 1) p o m = some (op, s'.inArray) := by
  simp only [push] at h
  split_ifs at h with hlt
  cases h
  have hlen : s.inArray.stack.length < limit + 1 := by
    simp only [inArray, List.length_append, List.length_cons, List.length_nil]
    omega
  rw [push, if_pos hlen]
  cases m <;> first | rfl | exact absurd rfl hm

theorem beginValue_inArray (h : s.beginValue limit c = some (op, s')) :
    s.inArray.beginValue (limit + 1) c = some (op, s'.inArray) := by
  simp only [beginValue] at h ⊢
  split_ifs at h ⊢
  · cases h
    rfl
  · exact push_inArray (by decide) h
  · exact push_inArray (by decide) h
  · cases hl : startLiteral c <;> rw [hl] at h <;> cases h
    rfl

theorem beginString_inArray (h : s.beginString c = some (op, s')) :
    s.inArray.beginString c = some (op, s'.inArray) := by
  simp only [beginString] at h ⊢
  split_ifs at h ⊢ <;> cases h <;> rfl

/-- A byte that stays does the same inside an array. -/
theorem step_inArray (h : s.step limit c = some (op, s')) (hop : op.isSpace = false) :
    s.inArray.step (limit + 1) c = some (op, s'.inArray) := by
  obtain ⟨mode, stack⟩ := s
  cases mode with
  | beginValue => exact beginValue_inArray h
  | beginValueOrEmpty =>
    simp only [step] at h
    split_ifs at h with hc
    · exact (if_pos hc).trans (endValue_inArray h hop)
    · exact (if_neg hc).trans (beginValue_inArray h)
  | beginString => exact beginString_inArray h
  | beginStringOrEmpty =>
    simp only [step] at h
    split_ifs at h with hc
    · cases stack with
      | nil => cases h
      | cons p rest => exact (if_pos hc).trans (endValue_inArray h hop)
    · exact (if_neg hc).trans (beginString_inArray h)
  | endValue => exact endValue_inArray h hop
  | endTop =>
    simp only [step, endTop] at h
    split_ifs at h
    cases h
    cases hop
  | lit l =>
    simp only [step] at h
    simp only [step, show (inArray ⟨.lit l, stack⟩).mode = .lit l from rfl]
    cases hl : l.next c with
    | bad =>
      rw [hl] at h
      cases h
    | ended =>
      rw [hl] at h
      exact endValue_inArray h hop
    | last | more =>
      rw [hl] at h
      cases h
      rfl

/-! ## Where an element begins and ends -/

theorem endValue_closed (h : endValue c stack = some (op, s')) : s'.Closed := by
  cases stack with
  | nil =>
    obtain ⟨-, he⟩ := Option.ite_none_right_eq_some.mp h
    cases he
    exact fun _ => rfl
  | cons p rest =>
    simp only [endValue] at h
    cases p <;> simp only at h <;> split_ifs at h <;> cases h <;>
      first
      | exact pop_closed rest
      | (intro hm; cases hm)

theorem beginValue_closed (hs : s.Closed) (h : s.beginValue limit c = some (op, s')) :
    s'.Closed := by
  simp only [beginValue, push] at h
  split_ifs at h <;> first | (cases h; first | exact hs | (intro hm; cases hm)) | skip
  cases hl : startLiteral c <;> rw [hl] at h <;> cases h
  intro hm
  cases hm

theorem beginString_closed (hs : s.Closed) (h : s.beginString c = some (op, s')) : s'.Closed := by
  simp only [beginString] at h
  split_ifs at h <;> cases h
  · exact hs
  · intro hm
    cases hm

theorem step_closed (hs : s.Closed) (h : s.step limit c = some (op, s')) : s'.Closed := by
  obtain ⟨mode, stack⟩ := s
  cases mode with
  | beginValue => exact beginValue_closed hs h
  | beginValueOrEmpty =>
    simp only [step] at h
    split_ifs at h
    · exact endValue_closed h
    · exact beginValue_closed hs h
  | beginString => exact beginString_closed hs h
  | beginStringOrEmpty =>
    simp only [step] at h
    split_ifs at h
    · cases stack with
      | nil => cases h
      | cons p rest => exact endValue_closed h
    · exact beginString_closed hs h
  | endValue => exact endValue_closed h
  | endTop =>
    obtain ⟨-, he⟩ := Option.ite_none_right_eq_some.mp h
    cases he
    exact hs
  | lit l =>
    simp only [step] at h
    cases hl : l.next c with
    | bad =>
      rw [hl] at h
      cases h
    | ended =>
      rw [hl] at h
      exact endValue_closed h
    | last | more =>
      rw [hl] at h
      cases h
      intro hm
      cases hm

/-- With nothing open, no byte separates or ends the elements of an array. -/
theorem step_outside {mode : Mode} (h : step limit c ⟨mode, []⟩ = some (op, s')) :
    op ≠ .arrayValue ∧ op ≠ .endArray := by
  have hend : endValue c [] = some (op, s') → op ≠ .arrayValue ∧ op ≠ .endArray := fun h => by
    obtain ⟨-, he⟩ := Option.ite_none_right_eq_some.mp h
    cases he
    decide
  have hbegin : beginValue limit c ⟨mode, []⟩ = some (op, s') →
      op ≠ .arrayValue ∧ op ≠ .endArray := fun h => by
    simp only [beginValue, push] at h
    split_ifs at h <;> first | (cases h; decide) | skip
    cases hl : startLiteral c <;> rw [hl] at h <;> cases h
    decide
  have hkey : beginString c ⟨mode, []⟩ = some (op, s') →
      op ≠ .arrayValue ∧ op ≠ .endArray := fun h => by
    simp only [beginString] at h
    split_ifs at h <;> cases h <;> decide
  cases mode with
  | beginValue => exact hbegin h
  | beginValueOrEmpty =>
    simp only [step] at h
    split_ifs at h
    · exact hend h
    · exact hbegin h
  | beginString => exact hkey h
  | beginStringOrEmpty =>
    simp only [step] at h
    split_ifs at h
    exact hkey h
  | endValue | endTop => exact hend h
  | lit l =>
    simp only [step] at h
    cases hl : l.next c with
    | bad =>
      rw [hl] at h
      cases h
    | ended =>
      rw [hl] at h
      exact hend h
    | last | more =>
      rw [hl] at h
      cases h
      decide

/-- After an element comes a comma or the end of the array. -/
theorem step_after (limit : Nat) (hs : s.Closed) (he : s.eof = true) :
    s.inArray.step limit (byte ',') = some (.arrayValue, start.inArray) ∧
      s.inArray.step limit (byte ']') = some (.endArray, ⟨.endTop, []⟩) := by
  obtain ⟨mode, stack⟩ := s
  rcases eof_iff.mp he with hm | ⟨hstack, hm⟩
  · obtain rfl : mode = .endTop := hm
    obtain rfl : stack = [] := hs rfl
    exact ⟨rfl, rfl⟩
  · obtain rfl : stack = [] := hstack
    rcases hm with hm | ⟨l, hm, hl⟩
    · obtain rfl : mode = .endValue := hm
      exact ⟨rfl, rfl⟩
    · obtain rfl : mode = .lit l := hm
      have hnext : ∀ {c}, follows c = true → step limit c (inArray ⟨.lit l, []⟩) =
          endValue c [.arrayValue] := fun hc => by
        simp only [step, inArray, Mode.inArray, Literal.ended_of_follows hl hc, List.nil_append]
      exact ⟨hnext (by decide), hnext (by decide)⟩

/-- A bracket opens an array where one more may be open. -/
theorem step_bracket {mode : Mode} (hm : mode = .beginValue ∨ mode = .beginValueOrEmpty)
    (stack : List ParseState) : step limit (byte '[') ⟨mode, stack⟩ =
      if stack.length < limit then some (.beginArray, ⟨.beginValueOrEmpty, .arrayValue :: stack⟩)
      else none := by
  rcases hm with rfl | rfl <;> rfl

/-- An element begins as any value does, so the array is not empty. -/
theorem step_opened (h : start.step limit c = some (op, s')) (hop : op.isSpace = false) :
    opened.step (limit + 1) c = start.inArray.step (limit + 1) c := by
  have hc : c ≠ byte ']' := by
    rintro rfl
    cases h
  have hs : isSpace c = false := (beginValue_op h).symm.trans hop
  have hopened : opened.step (limit + 1) c = opened.beginValue (limit + 1) c := if_neg hc
  have hstart : start.inArray.step (limit + 1) c = start.inArray.beginValue (limit + 1) c := rfl
  rw [hopened, hstart, beginValue, beginValue, hs]
  rfl

/-! ## Reading an element -/

theorem collect_step (h : s.step limit c = some (op, s')) (hop : op.isSpace = false)
    (item rest : Bytes) : collect (limit + 1) s.inArray item (c :: rest) =
      collect (limit + 1) s'.inArray (item ++ [c]) rest := by
  rw [collect, step_inArray h hop]
  by_cases hlen : s.inArray.stack.length = 1
  · obtain ⟨mode, stack⟩ := s
    obtain rfl : stack = [] := by
      simpa [inArray] using hlen
    obtain ⟨hcomma, hbracket⟩ := step_outside h
    cases op with
    | skipSpace | end' => cases hop
    | arrayValue => exact absurd rfl hcomma
    | endArray => exact absurd rfl hbracket
    | _ => rfl
  · simp only [if_neg hlen]

/-- A tight text inside an array is one of its elements. -/
theorem tight_inArray (ht : Tight limit s text) (hs : s.Closed) : ∃ s₂ : Scan,
    s₂.Closed ∧ s₂.eof = true ∧
    (∀ rest, Tight (limit + 1) s₂.inArray rest → Tight (limit + 1) s.inArray (text ++ rest)) ∧
    ∀ item rest, collect (limit + 1) s.inArray item (text ++ rest) =
      collect (limit + 1) s₂.inArray (item ++ text) rest := by
  induction text generalizing s with
  | nil => exact ⟨s, hs, ht, fun _ h => h, fun item rest => by rw [List.append_nil, List.nil_append]⟩
  | cons c text ih =>
    obtain ⟨op, s', hstep, hop, htext⟩ := ht
    obtain ⟨s₂, hs₂, he, htight, hcollect⟩ := ih htext (step_closed hs hstep)
    refine ⟨s₂, hs₂, he, fun rest hrest => ⟨op, _, step_inArray hstep hop, hop, htight rest hrest⟩,
      fun item rest => ?_⟩
    rw [List.cons_append, collect_step hstep hop, hcollect, List.append_assoc, List.singleton_append]

end

/-! ## Reading the array back -/

section
variable {limit : Nat} {items : List Bytes}

theorem start_closed : start.Closed := nofun

theorem tight_ne_nil {text : Bytes} (h : Tight limit start text) : text ≠ [] := by
  rintro rfl
  cases h

/-- The elements and the bracket behind them. -/
theorem collect_elements (hne : items ≠ []) (h : ∀ x ∈ items, Tight limit start x) :
    Tight (limit + 1) start.inArray (List.intercalate [byte ','] items ++ [byte ']']) ∧
      collect (limit + 1) start.inArray [] (List.intercalate [byte ','] items ++ [byte ']']) =
        some items := by
  induction items with
  | nil => exact absurd rfl hne
  | cons x rest ih =>
    have hx := h x (List.mem_cons_self ..)
    obtain ⟨s₂, hs₂, he, htight, hcollect⟩ := tight_inArray hx start_closed
    obtain ⟨hcomma, hbracket⟩ := step_after (limit + 1) hs₂ he
    obtain ⟨mode, stack⟩ := s₂
    obtain rfl : stack = [] := (eof_iff.mp he).elim hs₂ And.left
    cases rest with
    | nil =>
      rw [List.intercalate_singleton]
      refine ⟨htight _ ⟨_, _, hbracket, rfl, rfl⟩, ?_⟩
      rw [hcollect, List.nil_append, collect, hbracket]
      simp [inArray, tight_ne_nil hx]
    | cons y rest =>
      obtain ⟨hrest, hread⟩ := ih (List.cons_ne_nil y rest) fun z hz => h z (List.mem_cons_of_mem _ hz)
      rw [List.intercalate_cons_cons, List.append_assoc, List.append_assoc, List.singleton_append]
      refine ⟨htight _ ⟨_, _, hcomma, rfl, hrest⟩, ?_⟩
      rw [hcollect, List.nil_append, collect, hcomma]
      have hlen : (inArray ⟨mode, []⟩).stack.length = 1 := rfl
      simp only [if_pos hlen, hread, Option.map_some]

/-- The first element after the bracket. -/
theorem opened_elements (hne : items ≠ []) (h : ∀ x ∈ items, Tight limit start x) :
    Tight (limit + 1) opened (List.intercalate [byte ','] items ++ [byte ']']) ∧
      collect (limit + 1) opened [] (List.intercalate [byte ','] items ++ [byte ']']) =
        some items := by
  obtain ⟨htight, hread⟩ := collect_elements hne h
  obtain ⟨c, rest, hcons, op, s', hstep, hop⟩ : ∃ c rest, List.intercalate [byte ','] items ++ [byte ']'] =
      c :: rest ∧ ∃ op s', start.step limit c = some (op, s') ∧ op.isSpace = false := by
    match items, hne with
    | x :: items, _ =>
      match x, h x (List.mem_cons_self ..) with
      | c :: x, ⟨op, s', hstep, hop, _⟩ =>
        cases items with
        | nil => exact ⟨c, x ++ [byte ']'], by simp, op, s', hstep, hop⟩
        | cons y items => exact ⟨c, _, by rw [List.intercalate_cons_cons]; rfl, op, s', hstep, hop⟩
  rw [hcons] at htight hread ⊢
  have heq := step_opened hstep hop
  refine ⟨?_, ?_⟩
  · obtain ⟨op, s', hs, hop, hrest⟩ := htight
    exact ⟨op, s', heq.trans hs, hop, hrest⟩
  · rw [collect, heq]
    rw [collect] at hread
    exact hread

theorem array_tight (hne : items ≠ []) (h : ∀ x ∈ items, Tight limit start x) :
    Tight (limit + 1) start (array items) := by
  have hstep : start.step (limit + 1) (byte '[') = some (.beginArray, opened) :=
    (step_bracket (.inl rfl) []).trans (if_pos (Nat.succ_pos limit))
  exact ⟨_, _, hstep, rfl, (opened_elements hne h).1⟩

/-- **The elements of an array** that nest one level less than the limit are
read back. -/
theorem unmarshalArray_array (hne : items ≠ []) (h : ∀ x ∈ items, Tight limit start x) :
    unmarshalArray (limit + 1) (array items) = some items := by
  have hbracket : isSpace (byte '[') = false := by decide
  rw [unmarshalArray, if_pos (array_tight hne h).valid, array,
    List.dropWhile_cons_of_neg (by rw [hbracket]; decide)]
  simp only [if_true]
  exact (opened_elements hne h).2

theorem tight_null : Tight limit start (bytes "null") :=
  ⟨_, _, rfl, rfl, _, _, rfl, rfl, _, _, rfl, rfl, _, _, rfl, rfl, rfl⟩

/-- An element is encoded when it is valid, and then encoded for good. -/
theorem marshalRaw_spec {x : Option Bytes} (h : ∀ text ∈ x, valid limit text = true) :
    ∃ z, marshalRaw limit x = some z ∧ Tight limit start z ∧ marshalRaw limit (some z) = some z := by
  cases x with
  | none =>
    have hescaped : Escaped (bytes "null" ++ []) := escaped_append (by decide) trivial
    exact ⟨_, rfl, tight_null, compactFrom_of_tight tight_null hescaped⟩
  | some text =>
    obtain ⟨z, hz⟩ := Option.isSome_iff_exists.mp (compact_isSome.trans (h text rfl))
    exact ⟨z, hz, compact_tight hz, compact_compact hz⟩

theorem marshalRaw_mono {limit' : Nat} (hle : limit ≤ limit') {x : Option Bytes} {z : Bytes}
    (h : marshalRaw limit x = some z) : marshalRaw limit' x = some z := by
  cases x with
  | none => exact h
  | some text => exact compact_mono hle h

/-- The same JSON but for its formatting: written again, the two are one text.
An absent text is written as `null`. -/
def SameJson (limit : Nat) (x y : Option Bytes) : Prop :=
  ∃ z, marshalRaw limit x = some z ∧ marshalRaw limit y = some z

theorem marshalRaw_all {elements : List (Option Bytes)}
    (h : ∀ x ∈ elements, ∀ text ∈ x, valid limit text = true) :
    ∃ items, elements.mapM (marshalRaw (limit + 1)) = some items ∧ (∀ z ∈ items, Tight limit start z) ∧
      List.Forall₂ (SameJson (limit + 1)) (items.map some) elements := by
  induction elements with
  | nil => exact ⟨[], rfl, by simp, .nil⟩
  | cons x rest ih =>
    obtain ⟨z, hz, htight, hagain⟩ := marshalRaw_spec (h x (List.mem_cons_self ..))
    obtain ⟨items, hmap, hall, hsame⟩ := ih fun y hy => h y (List.mem_cons_of_mem _ hy)
    have hle : limit ≤ limit + 1 := Nat.le_succ limit
    refine ⟨z :: items, ?_, ?_, .cons ⟨z, marshalRaw_mono hle hagain, marshalRaw_mono hle hz⟩ hsame⟩
    · rw [List.mapM_cons, marshalRaw_mono hle hz, hmap]
      rfl
    · intro y hy
      rcases List.mem_cons.mp hy with rfl | hy
      · exact htight
      · exact hall y hy

/-- **An array read back**: its elements as they were but for the formatting,
when each is absent or nests one level less than the limit. -/
theorem unmarshalArray_marshalArray {elements : List (Option Bytes)} (hne : elements ≠ [])
    (h : ∀ x ∈ elements, ∀ text ∈ x, valid limit text = true) :
    ∃ text items, marshalArray (limit + 1) elements = some text ∧ text ≠ [] ∧
      unmarshalArray (limit + 1) text = some items ∧
      List.Forall₂ (SameJson (limit + 1)) (items.map some) elements := by
  obtain ⟨items, hmap, hall, hsame⟩ := marshalRaw_all h
  have hitems : items ≠ [] := by
    rintro rfl
    exact hne (List.forall₂_nil_left_iff.mp hsame)
  refine ⟨array items, items, ?_, List.cons_ne_nil _ _, unmarshalArray_array hitems hall, hsame⟩
  rw [marshalArray, hmap, Option.map_some]

end

/-! ## Arrays inside each other -/

/-- `n` arrays inside each other. -/
def nested (n : Nat) : Bytes := List.replicate n (byte '[') ++ List.replicate n (byte ']')

theorem array_nested (n : Nat) : array [nested n] = nested (n + 1) := by
  have hopen : List.replicate (n + 1) (byte '[') = byte '[' :: List.replicate n (byte '[') := rfl
  have hclose : List.replicate (n + 1) (byte ']') = List.replicate n (byte ']') ++ [byte ']'] :=
    List.replicate_succ'
  rw [array, List.intercalate_singleton, nested, nested, hopen, hclose, List.cons_append,
    List.append_assoc]

section
variable {limit : Nat}

theorem tight_brackets {mode : Mode} (hm : mode = .beginValueOrEmpty ∨ mode = .endValue) (n : Nat) :
    Tight limit ⟨mode, List.replicate (n + 1) .arrayValue⟩ (List.replicate (n + 1) (byte ']')) := by
  induction n generalizing mode with
  | zero => rcases hm with rfl | rfl <;> exact ⟨_, _, rfl, rfl, rfl⟩
  | succ n ih => rcases hm with rfl | rfl <;> exact ⟨_, _, rfl, rfl, ih (.inr rfl)⟩

theorem tight_nested_inside (n k : Nat) (h : k + 1 + n ≤ limit) :
    Tight limit ⟨.beginValueOrEmpty, List.replicate (k + 1) .arrayValue⟩
      (List.replicate n (byte '[') ++ List.replicate (n + (k + 1)) (byte ']')) := by
  induction n generalizing k with
  | zero =>
    rw [Nat.zero_add]
    exact tight_brackets (.inl rfl) k
  | succ n ih =>
    have hlt : (List.replicate (k + 1) ParseState.arrayValue).length < limit := by
      rw [List.length_replicate]
      omega
    have hrest := ih (k + 1) (by omega)
    rw [show n + (k + 1 + 1) = n + 1 + (k + 1) by omega] at hrest
    exact ⟨_, _, (step_bracket (.inr rfl) _).trans (if_pos hlt), rfl, hrest⟩

theorem tight_nested {n : Nat} (hn : 0 < n) (hle : n ≤ limit) : Tight limit start (nested n) := by
  cases n with
  | zero => omega
  | succ n =>
    have hlt : ([] : List ParseState).length < limit := Nat.lt_of_lt_of_le hn hle
    exact ⟨_, _, (step_bracket (.inl rfl) []).trans (if_pos hlt), rfl,
      tight_nested_inside n 0 (by omega)⟩

theorem compact_nested {n : Nat} (hn : 0 < n) (hle : n ≤ limit) :
    compact limit (nested n) = some (nested n) := by
  have hescaped : Escaped (nested n ++ []) := escaped_append (List.all_eq_true.mpr fun c hc => by
    rcases List.mem_append.mp hc with hc | hc <;> rw [List.eq_of_mem_replicate hc] <;> decide) trivial
  rw [List.append_nil] at hescaped
  exact compactFrom_of_tight (tight_nested hn hle) hescaped

theorem run_brackets {mode : Mode} (hm : mode = .beginValue ∨ mode = .beginValueOrEmpty) (n : Nat)
    (stack : List ParseState) (rest : Bytes) (hle : stack.length ≤ limit)
    (h : limit < stack.length + n) :
    run limit ⟨mode, stack⟩ (List.replicate n (byte '[') ++ rest) = none := by
  induction n generalizing mode stack with
  | zero => omega
  | succ n ih =>
    rw [List.replicate_succ, List.cons_append, run, List.foldlM_cons, step_bracket hm]
    split_ifs with hlt
    · exact ih (.inr rfl) _ hlt (by rw [List.length_cons]; omega)
    · rfl

/-- **More arrays inside each other than may be open** are not valid. -/
theorem nested_not_valid {n : Nat} (h : limit < n) : valid limit (nested n) = false := by
  rw [valid, nested, start, run_brackets (.inl rfl) n [] _ (Nat.zero_le _) (by simpa using h)]

/-- An element that uses all the levels is written, but the array is not read
back. -/
theorem marshalArray_nested (limit : Nat) (hpos : 0 < limit) :
    marshalArray limit [some (nested limit)] = some (nested (limit + 1)) ∧
      unmarshalArray limit (nested (limit + 1)) = none := by
  constructor
  · rw [marshalArray, List.mapM_cons, marshalRaw, compact_nested hpos (Nat.le_refl limit)]
    exact congrArg some (array_nested limit)
  · rw [unmarshalArray, nested_not_valid (Nat.lt_succ_self limit)]
    rfl

end

end Json
