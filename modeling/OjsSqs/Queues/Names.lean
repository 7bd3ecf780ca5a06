import OjsSqs.Atomic.Steps
import Mathlib.Data.List.Forall2

/-! # The SQS names of queues

A queue's SQS name is the prefix, a hyphen and the queue's name with its dots
made hyphens; its dead letter queue has `-dlq` after it. Which names can be told
apart is a matter of the dots and hyphens in them, and nothing limits their
length. -/
namespace OjsSqs

/-! ## The names the API takes -/

def isQueueNameStart (c : Char) : Bool := ('a' ≤ c && c ≤ 'z') || ('0' ≤ c && c ≤ '9')
def isQueueNameChar (c : Char) : Bool := isQueueNameStart c || c = '-' || c = '.'

/-- `QueueName` of the API: `^[a-z0-9][a-z0-9\-\.]*$`, 128 characters at most. -/
def isQueueName (name : String) : Bool :=
  match name.toList with
  | [] => false
  | c :: cs => isQueueNameStart c && cs.all isQueueNameChar && name.length ≤ 128

/-! ## The names SQS takes -/

def isSqsChar (c : Char) : Bool :=
  ('a' ≤ c && c ≤ 'z') || ('A' ≤ c && c ≤ 'Z') || ('0' ≤ c && c ≤ '9') || c = '-' || c = '_'

/-- At most 80 characters. The suffix of a FIFO queue is among them. -/
def ValidSqsName (useFIFO : Bool) (name : String) : Prop :=
  name.length ≤ 80 ∧
    ∃ base, name = (if useFIFO then base ++ ".fifo" else base) ∧ base.toList.all isSqsChar = true

/-- The two queues and their dead letter queues have names of their own, and
SQS takes all of them. -/
structure NamesApart (cfg : Config) (q q' : String) : Prop where
  queues : sqsQueueName cfg q ≠ sqsQueueName cfg q'
  deadLetters : ∀ a ∈ [q, q'], ∀ b ∈ [q, q'], sqsQueueName cfg a ≠ sqsDLQName cfg b
  valid : ∀ a ∈ [q, q'], ValidSqsName cfg.useFIFO (sqsQueueName cfg a) ∧
    ValidSqsName cfg.useFIFO (sqsDLQName cfg a)

/-! ## What can be told apart -/

/-- The names are the same but for dots in place of hyphens. -/
def SameUpToDots (q q' : String) : Prop :=
  List.Forall₂ (fun c c' => c = c' ∨ c ∈ ['.', '-'] ∧ c' ∈ ['.', '-']) q.toList q'.toList

/-- What the name of a dead letter queue has on top of the queue's name. -/
def nameOverhead (cfg : Config) : Nat :=
  cfg.queuePrefix.length + 1 + 4 + if cfg.useFIFO then 5 else 0

structure Separable (cfg : Config) (q q' : String) : Prop where
  queues : ¬ SameUpToDots q q'
  deadLetters : ¬ SameUpToDots q (q' ++ "-dlq") ∧ ¬ SameUpToDots q' (q ++ "-dlq")
  settings : cfg.queuePrefix.toList.all isSqsChar = true
  short : ∀ a ∈ [q, q'], nameOverhead cfg + a.length ≤ 80

instance (q q' : String) : Decidable (SameUpToDots q q') :=
  inferInstanceAs (Decidable (List.Forall₂ _ _ _))

section
variable {cfg : Config} {q q' : String}

theorem toList_sanitizeQueueName (q : String) :
    (sanitizeQueueName q).toList = q.toList.map fun c => if c = '.' then '-' else c :=
  String.toList_ofList

@[simp] theorem length_sanitizeQueueName (q : String) : (sanitizeQueueName q).length = q.length := by
  rw [← String.length_toList, toList_sanitizeQueueName, List.length_map, String.length_toList]

/-- Two names become the same exactly when they differ in dots and hyphens only. -/
theorem sanitizeQueueName_eq : sanitizeQueueName q = sanitizeQueueName q' ↔ SameUpToDots q q' := by
  have hchar : ∀ c c' : Char, ((if c = '.' then '-' else c) = if c' = '.' then '-' else c') ↔
      c = c' ∨ c ∈ ['.', '-'] ∧ c' ∈ ['.', '-'] := by
    intro c c'
    simp only [List.mem_cons, List.not_mem_nil, or_false]
    split <;> split <;> grind
  rw [← String.toList_inj, toList_sanitizeQueueName, toList_sanitizeQueueName,
    ← List.forall₂_eq_eq_eq, List.forall₂_map_left_iff, List.forall₂_map_right_iff, SameUpToDots]
  simp only [hchar]

theorem sanitizeQueueName_append (q s : String) :
    sanitizeQueueName (q ++ s) = sanitizeQueueName q ++ sanitizeQueueName s := by
  rw [← String.toList_inj]
  simp only [String.toList_append, toList_sanitizeQueueName, List.map_append]

/-- A dead letter queue has the name of a queue. -/
theorem sqsDLQName_eq (q : String) : sqsDLQName cfg q = sqsQueueName cfg (q ++ "-dlq") := by
  have hsuffix : sanitizeQueueName "-dlq" = "-dlq" := by decide
  simp only [sqsDLQName, sqsQueueName, sanitizeQueueName_append, hsuffix, String.append_assoc]

theorem sqsQueueName_inj : sqsQueueName cfg q = sqsQueueName cfg q' ↔ SameUpToDots q q' := by
  rw [← sanitizeQueueName_eq]
  simp only [sqsQueueName]
  split
  · rw [String.append_left_inj, String.append_right_inj]
  · rw [String.append_right_inj]

theorem SameUpToDots.length_eq (h : SameUpToDots q q') : q.length = q'.length := by
  rw [← String.length_toList, ← String.length_toList]
  exact List.Forall₂.length_eq h

/-! ## Validity -/

theorem isQueueName_chars (h : isQueueName q = true) : q.toList.all isQueueNameChar = true := by
  rw [isQueueName] at h
  split at h
  · cases h
  · rename_i c cs hq
    simp only [Bool.and_eq_true] at h
    rw [hq, List.all_cons, isQueueNameChar, h.1.1, h.1.2]
    rfl

theorem isSqsChar_of_isQueueNameChar {c : Char} (h : isQueueNameChar c = true) :
    isSqsChar (if c = '.' then '-' else c) = true := by
  split
  · rfl
  · simp only [isQueueNameChar, isQueueNameStart, isSqsChar, Bool.or_eq_true, Bool.and_eq_true,
      decide_eq_true_eq] at *
    tauto

theorem sanitizeQueueName_chars (h : q.toList.all isQueueNameChar = true) :
    (sanitizeQueueName q).toList.all isSqsChar = true := by
  rw [toList_sanitizeQueueName, List.all_map, List.all_eq_true]
  exact fun c hc => isSqsChar_of_isQueueNameChar (List.all_eq_true.mp h c hc)

theorem length_sqsQueueName (q : String) : (sqsQueueName cfg q).length =
    cfg.queuePrefix.length + 1 + q.length + if cfg.useFIFO then 5 else 0 := by
  simp only [sqsQueueName]
  split <;> simp only [String.length_append, length_sanitizeQueueName] <;> rfl

/-- SQS takes the name of a queue when the prefix is right and all is short. -/
theorem validSqsName_iff (h : q.toList.all isQueueNameChar = true) :
    ValidSqsName cfg.useFIFO (sqsQueueName cfg q) ↔
      cfg.queuePrefix.toList.all isSqsChar = true ∧
        cfg.queuePrefix.length + 1 + q.length + (if cfg.useFIFO then 5 else 0) ≤ 80 := by
  have hbase : (cfg.queuePrefix ++ "-" ++ sanitizeQueueName q).toList.all isSqsChar =
      cfg.queuePrefix.toList.all isSqsChar := by
    rw [String.toList_append, String.toList_append, List.all_append, List.all_append,
      sanitizeQueueName_chars h, Bool.and_true]
    exact Bool.and_true _
  rw [ValidSqsName, length_sqsQueueName, and_comm, ← hbase]
  refine and_congr_left fun _ => ⟨fun ⟨base, hname, hchars⟩ => ?_, fun hchars => ⟨_, rfl, hchars⟩⟩
  have hsame : cfg.queuePrefix ++ "-" ++ sanitizeQueueName q = base := by
    simp only [sqsQueueName] at hname
    split at hname
    · exact (String.append_left_inj _).mp hname
    · exact hname
  rw [hsame]
  exact hchars

end

/-- **Names.** The names of two queues are apart exactly when the queues are
separable. -/
theorem names_apart_iff (cfg : Config) {q q' : String} (hq : isQueueName q = true)
    (hq' : isQueueName q' = true) : NamesApart cfg q q' ↔ Separable cfg q q' := by
  have hchars : ∀ a ∈ [q, q'], a.toList.all isQueueNameChar = true := by
    simp only [List.mem_cons, List.not_mem_nil, or_false]
    rintro a (rfl | rfl)
    exacts [isQueueName_chars hq, isQueueName_chars hq']
  have hdlq : ∀ a ∈ [q, q'], (a ++ "-dlq").toList.all isQueueNameChar = true := by
    intro a ha
    rw [String.toList_append, List.all_append, hchars a ha]
    rfl
  -- a queue is not its own dead letter queue
  have hown : ∀ a : String, ¬ SameUpToDots a (a ++ "-dlq") := by
    intro a h
    have hlen := h.length_eq
    have hsuffix : "-dlq".length = 4 := rfl
    rw [String.length_append, hsuffix] at hlen
    omega
  have hvalid : ∀ a ∈ [q, q'], (ValidSqsName cfg.useFIFO (sqsQueueName cfg a) ∧
      ValidSqsName cfg.useFIFO (sqsDLQName cfg a)) ↔
      cfg.queuePrefix.toList.all isSqsChar = true ∧ nameOverhead cfg + a.length ≤ 80 := by
    intro a ha
    have hsuffix : "-dlq".length = 4 := rfl
    rw [sqsDLQName_eq, validSqsName_iff (hchars a ha), validSqsName_iff (hdlq a ha), nameOverhead,
      String.length_append, hsuffix]
    exact ⟨fun ⟨_, hs, hlen⟩ => ⟨hs, by omega⟩,
      fun ⟨hs, hlen⟩ => ⟨⟨hs, by omega⟩, hs, by omega⟩⟩
  constructor
  · intro h
    have hdead : ∀ a ∈ [q, q'], ∀ b ∈ [q, q'], ¬ SameUpToDots a (b ++ "-dlq") := by
      intro a ha b hb
      have hinj : sqsQueueName cfg a = sqsQueueName cfg (b ++ "-dlq") ↔ _ := sqsQueueName_inj
      rw [← hinj, ← sqsDLQName_eq]
      exact h.deadLetters a ha b hb
    refine ⟨fun hsame => h.queues (sqsQueueName_inj.mpr hsame),
      ⟨hdead q (by simp) q' (by simp), hdead q' (by simp) q (by simp)⟩,
      ((hvalid q (by simp)).mp (h.valid q (by simp))).1, fun a ha => ?_⟩
    exact ((hvalid a ha).mp (h.valid a ha)).2
  · intro h
    refine ⟨fun hsame => h.queues (sqsQueueName_inj.mp hsame), fun a ha b hb => ?_,
      fun a ha => (hvalid a ha).mpr ⟨h.settings, h.short a ha⟩⟩
    rw [sqsDLQName_eq, Ne, sqsQueueName_inj]
    simp only [List.mem_cons, List.not_mem_nil, or_false] at ha hb
    rcases ha with rfl | rfl <;> rcases hb with rfl | rfl
    exacts [hown _, h.deadLetters.1, h.deadLetters.2, hown _]

theorem names_apart_default_email : NamesApart demo "default" "email" :=
  (names_apart_iff demo (by decide) (by decide)).mpr
    ⟨by decide, ⟨by decide, by decide⟩, by decide, by decide⟩

/-- Both queues become `ojs-email-send`. -/
theorem names_clash : isQueueName "email.send" = true ∧ isQueueName "email-send" = true ∧
    sqsQueueName demo "email.send" = sqsQueueName demo "email-send" ∧
    ¬ NamesApart demo "email.send" "email-send" := by
  have hsame : sqsQueueName demo "email.send" = sqsQueueName demo "email-send" := by decide
  exact ⟨by decide, by decide, hsame, fun h => h.queues hsame⟩

end OjsSqs
