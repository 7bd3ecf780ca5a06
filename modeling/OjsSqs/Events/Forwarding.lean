import Mathlib.Algebra.Group.Nat.Defs
import Mathlib.Data.List.Nodup
import Mathlib.Data.List.Range

/-! # The ids of forwarded events

`WSHandler` forwards the events of all subscriptions of its clients and gives
each the next value of one counter, written as a decimal number. -/
namespace OjsSqs

/-- `core.JobEvent`, with what the backend reads of it. -/
structure JobEvent where
  eventType : String
  jobID : String
  queue : String := ""
  timestamp : String := ""
deriving DecidableEq, Repr

/-! ## Decimal digits -/

/-- `pow10`: a factor of ten for each round of the loop. -/
def pow10 : Nat → UInt64
  | 0 => 1
  | n + 1 => pow10 n * 10

/-- `rune('0' + digit)` -/
def digitRune (digit : UInt64) : Char := Char.ofNat ('0'.toNat + digit.toNat)

/-- The digit of the loop's round `i`. -/
def digitAt (n : UInt64) (i : Nat) : Char := digitRune (n / pow10 i % 10)

/-- `formatUint`: the rounds 3, 2, 1 and 0. -/
def formatUint (n : UInt64) : String :=
  [3, 2, 1, 0].foldl (fun s i => s ++ String.singleton (digitAt n i)) ""

def formatEventID (id : UInt64) : String := "evt_" ++ formatUint id

/-- The last `k` decimal digits. -/
def lastDigits : Nat → Nat → List Char
  | 0, _ => []
  | k + 1, n => Char.ofNat ('0'.toNat + n / 10 ^ k % 10) :: lastDigits k n

theorem digit_lt_iff : ∀ a < 10, ∀ b < 10,
    (Char.ofNat ('0'.toNat + a) < Char.ofNat ('0'.toNat + b) ↔ a < b) := by decide

theorem digit_inj : ∀ a < 10, ∀ b < 10,
    (Char.ofNat ('0'.toNat + a) = Char.ofNat ('0'.toNat + b) ↔ a = b) := by decide

/-- The leading one of `k + 1` digits and the others. -/
theorem mod_pow_succ (n k : Nat) : n % 10 ^ (k + 1) = 10 ^ k * (n / 10 ^ k % 10) + n % 10 ^ k := by
  rw [Nat.pow_succ, Nat.mod_mul, Nat.add_comm]

/-- Numbers with as many digits come in the order of their digits. -/
theorem lastDigits_lt_iff (k a b : Nat) :
    lastDigits k a < lastDigits k b ↔ a % 10 ^ k < b % 10 ^ k := by
  induction k with
  | zero => simp [lastDigits, Nat.mod_one]
  | succ k ih =>
    have ha := Nat.mod_lt (a / 10 ^ k) (show 0 < 10 by decide)
    have hb := Nat.mod_lt (b / 10 ^ k) (show 0 < 10 by decide)
    have hra := Nat.mod_lt a (Nat.pow_pos (show 0 < 10 by decide) : 0 < 10 ^ k)
    have hrb := Nat.mod_lt b (Nat.pow_pos (show 0 < 10 by decide) : 0 < 10 ^ k)
    rw [lastDigits, lastDigits, List.cons_lt_cons_iff, digit_lt_iff _ ha _ hb,
      digit_inj _ ha _ hb, ih, mod_pow_succ a, mod_pow_succ b]
    generalize a / 10 ^ k % 10 = d at *
    generalize b / 10 ^ k % 10 = e at *
    generalize a % 10 ^ k = x at *
    generalize b % 10 ^ k = y at *
    generalize 10 ^ k = p at *
    constructor
    · rintro (h | ⟨rfl, h⟩)
      · have hle : p * (d + 1) ≤ p * e := Nat.mul_le_mul_left p h
        rw [Nat.mul_succ] at hle
        omega
      · omega
    · intro h
      rcases Nat.lt_trichotomy d e with hlt | rfl | hgt
      · exact .inl hlt
      · exact .inr ⟨rfl, by omega⟩
      · have hle : p * (e + 1) ≤ p * d := Nat.mul_le_mul_left p hgt
        rw [Nat.mul_succ] at hle
        omega

theorem pow10_toNat : ∀ i < 4, (pow10 i).toNat = 10 ^ i := by decide

theorem digitAt_eq {i : Nat} (hi : i < 4) (n : UInt64) :
    digitAt n i = Char.ofNat ('0'.toNat + n.toNat / 10 ^ i % 10) := by
  rw [digitAt, digitRune, UInt64.toNat_mod, UInt64.toNat_div, pow10_toNat i hi]
  rfl

theorem formatUint_toList (n : UInt64) : (formatUint n).toList = lastDigits 4 n.toNat := by
  simp only [formatUint, List.foldl_cons, List.foldl_nil, String.toList_append,
    String.toList_singleton, lastDigits]
  rw [digitAt_eq (by decide), digitAt_eq (by decide), digitAt_eq (by decide), digitAt_eq (by decide)]
  rfl

/-- **Ids come in the order of the last four digits** of the counter. -/
theorem formatEventID_lt_iff (a b : UInt64) :
    formatEventID a < formatEventID b ↔ a.toNat % 10000 < b.toNat % 10000 := by
  have hprefix : ∀ l l' : List Char, "evt_".toList ++ l < "evt_".toList ++ l' ↔ l < l' := by
    intro l l'
    simp
  rw [formatEventID, formatEventID, String.lt_iff, String.toList_append, String.toList_append,
    hprefix, formatUint_toList, formatUint_toList]
  exact lastDigits_lt_iff 4 a.toNat b.toNat

theorem formatEventID_inj_iff (a b : UInt64) :
    formatEventID a = formatEventID b ↔ a.toNat % 10000 = b.toNat % 10000 := by
  have hlt := formatEventID_lt_iff a b
  have hgt := formatEventID_lt_iff b a
  constructor
  · intro h
    rw [h] at hlt hgt
    have hle := mt hlt.mpr (String.lt_irrefl _)
    have hge := mt hgt.mpr (String.lt_irrefl _)
    omega
  · intro h
    refine String.le_antisymm ?_ ?_
    · exact String.not_lt.mp fun h' => by have := hgt.mp h'; omega
    · exact String.not_lt.mp fun h' => by have := hlt.mp h'; omega

/-! ## Forwarding -/

/-- `wsResponse`, with the fields of an event. -/
structure WsResponse where
  type : String
  channel : String
  event : String
  data : String
  id : String
  timestamp : String
deriving DecidableEq, Repr

structure WSHandler where
  eventID : UInt64 := 0

namespace WSHandler

/-- The body of the forwarding loop, with `json.Marshal` as a parameter: an
event that has no encoding gets no id. -/
def forward (marshal : JobEvent → Option String) (channel : String) (event : JobEvent)
    (h : WSHandler) : Option WsResponse × WSHandler :=
  match marshal event with
  | none => (none, h)
  | some data =>
    let id := h.eventID + 1
    (some {
      type := "event"
      channel := channel
      event := event.eventType
      data := data
      id := formatEventID id
      timestamp := event.timestamp }, { h with eventID := id })

/-- The events of all subscriptions, in the order in which they get their ids. -/
def forwardAll (marshal : JobEvent → Option String) :
    List (String × JobEvent) → WSHandler → List WsResponse
  | [], _ => []
  | (channel, event) :: rest, h =>
    let out := h.forward marshal channel event
    out.1.toList ++ forwardAll marshal rest out.2

/-- The events that are sent. -/
def sendable (marshal : JobEvent → Option String) (events : List (String × JobEvent)) : Nat :=
  events.countP fun e => (marshal e.2).isSome

variable {marshal : JobEvent → Option String}

/-- The ids of the events are the next values of the counter. -/
theorem forwardAll_ids (events : List (String × JobEvent)) (h : WSHandler) :
    (forwardAll marshal events h).map (·.id) =
      (List.range (sendable marshal events)).map fun k =>
        formatEventID (h.eventID + UInt64.ofNat (k + 1)) := by
  induction events generalizing h with
  | nil => rfl
  | cons e events ih =>
    obtain ⟨channel, event⟩ := e
    rw [forwardAll, forward, sendable, List.countP_cons, ← sendable]
    cases hm : marshal event with
    | none => simpa [hm] using ih h
    | some data =>
      simp only [Option.toList_some, List.singleton_append, List.map_cons, Option.isSome_some,
        if_true]
      rw [ih, List.range_succ_eq_map, List.map_cons, List.map_map]
      refine congrArg₂ List.cons rfl (List.map_congr_left fun k _ => ?_)
      rw [Function.comp_apply, Nat.succ_eq_add_one, UInt64.ofNat_add (k + 1), UInt64.add_assoc,
        UInt64.add_comm 1]
      rfl

end WSHandler

/-! ## Uniqueness and order -/

/-- What a client needs to tell the events apart and to sort them. -/
structure IdsInOrder (ids : List String) : Prop where
  distinct : ids.Nodup
  ascending : ids.Pairwise (· < ·)

/-- The ids of the first `n` events. -/
def firstIds (n : Nat) : List String :=
  (List.range n).map fun k => formatEventID (UInt64.ofNat (k + 1))

theorem ofNat_toNat {k : Nat} (hk : k + 1 < 2 ^ 64) : (UInt64.ofNat (k + 1)).toNat = k + 1 :=
  UInt64.toNat_ofNat_of_lt' hk

theorem firstIds_lt_iff {k l : Nat} (hk : k + 1 < 2 ^ 64) (hl : l + 1 < 2 ^ 64) :
    formatEventID (UInt64.ofNat (k + 1)) < formatEventID (UInt64.ofNat (l + 1)) ↔
      (k + 1) % 10000 < (l + 1) % 10000 := by
  rw [formatEventID_lt_iff, ofNat_toNat hk, ofNat_toNat hl]

/-- The ids are unique as long as four digits are enough to count the events. -/
theorem firstIds_nodup_iff {n : Nat} (hn : n < 2 ^ 64) : (firstIds n).Nodup ↔ n ≤ 10000 := by
  have hinj : ∀ k < n, ∀ l < n, formatEventID (UInt64.ofNat (k + 1)) =
      formatEventID (UInt64.ofNat (l + 1)) ↔ (k + 1) % 10000 = (l + 1) % 10000 := by
    intro k hk l hl
    rw [formatEventID_inj_iff, ofNat_toNat (by omega), ofNat_toNat (by omega)]
  rw [firstIds, List.nodup_map_iff_inj_on List.nodup_range]
  simp only [List.mem_range]
  constructor
  · intro h
    by_contra hlt
    have heq := h 0 (by omega) 10000 (by omega) ((hinj 0 (by omega) 10000 (by omega)).mpr rfl)
    cases heq
  · intro hle k hk l hl he
    have hmod := (hinj k hk l hl).mp he
    omega

/-- The ids ascend until the counter needs a fifth digit. -/
theorem firstIds_ascending_iff {n : Nat} (hn : n < 2 ^ 64) :
    (firstIds n).Pairwise (· < ·) ↔ n ≤ 9999 := by
  rw [firstIds, List.pairwise_map]
  constructor
  · intro h
    by_contra hlt
    -- the ids of 9999 and 10000
    have hpair := List.pairwise_iff_getElem.mp h 9998 9999 (by simp; omega) (by simp; omega)
      (by decide)
    rw [List.getElem_range, List.getElem_range, firstIds_lt_iff (by decide) (by decide)] at hpair
    cases hpair
  · intro hle
    refine List.pairwise_lt_range.imp_of_mem fun {k l} hk hl hkl => ?_
    rw [List.mem_range] at hk hl
    rw [firstIds_lt_iff (by omega) (by omega)]
    omega

/-- The ids of a new handler. -/
theorem new_handler_ids (marshal : JobEvent → Option String) (events : List (String × JobEvent)) :
    (WSHandler.forwardAll marshal events {}).map (·.id) =
      firstIds (WSHandler.sendable marshal events) := by
  rw [WSHandler.forwardAll_ids, firstIds]
  simp only [UInt64.zero_add]

/-- **The ids of a handler** are unique and in order if and only if it has sent
fewer than ten thousand events. -/
theorem event_ids_in_order_iff (marshal : JobEvent → Option String)
    (events : List (String × JobEvent)) (hcount : WSHandler.sendable marshal events < 2 ^ 64) :
    IdsInOrder ((WSHandler.forwardAll marshal events {}).map (·.id)) ↔
      WSHandler.sendable marshal events ≤ 9999 := by
  rw [new_handler_ids]
  constructor
  · exact fun h => (firstIds_ascending_iff hcount).mp h.ascending
  · intro hle
    exact ⟨(firstIds_nodup_iff hcount).mpr (by omega), (firstIds_ascending_iff hcount).mpr hle⟩

/-- The ids of two events of one job. -/
theorem event_ids_in_order_two : IdsInOrder ((WSHandler.forwardAll (fun e => some e.jobID)
    [("all", ⟨"job.state_changed", "j1", "", ""⟩), ("all", ⟨"job.progress", "j1", "", ""⟩)] {}).map
      (·.id)) :=
  (event_ids_in_order_iff _ _ (by decide)).mpr (by decide)

/-- The id of the ten thousandth event comes before all others. -/
theorem event_ids_wrap : ¬ ∀ (marshal : JobEvent → Option String)
    (events : List (String × JobEvent)), WSHandler.sendable marshal events < 2 ^ 64 →
    IdsInOrder ((WSHandler.forwardAll marshal events {}).map (·.id)) := by
  intro hall
  have hcount : WSHandler.sendable (fun e => some e.jobID)
      (List.replicate 10000 ("all", ⟨"job.progress", "j1", "", ""⟩)) = 10000 := by
    rw [WSHandler.sendable, List.countP_replicate]
    rfl
  have h := hall (fun e => some e.jobID) (List.replicate 10000 ("all", ⟨"job.progress", "j1", "", ""⟩))
    (by rw [hcount]; decide)
  rw [new_handler_ids, hcount] at h
  have hle := (firstIds_ascending_iff (by decide)).mp h.ascending
  omega

end OjsSqs
