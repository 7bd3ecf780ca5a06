import OjsSqs.Calls.Ghost
import OjsSqs.Racing.Footprint

/-! # The deduplication window of a FIFO queue

For five minutes after it has accepted a message, a FIFO queue answers a send
with the same deduplication id as it answers any other, and drops the message.
It does so even when the first message has been received and deleted. The
queue stands as a filter between the backend and the service. -/
namespace OjsSqs
open Calls

/-- Five minutes. -/
def dedupWindow : Time := 300 * 1000000000

/-- A message a queue has accepted: its deduplication id, and when. -/
structure Accepted where
  url : String
  dedup : String
  time : Time
deriving DecidableEq, Repr

/-- What FIFO queues know of the messages they were sent. Each send of `dropped`
has been reported as a success. -/
structure Fifo where
  accepted : List Accepted := []
  dropped : List OutMessage := []
deriving DecidableEq, Repr

namespace Fifo

/-- The queue has accepted a message with the deduplication id of `m`, less than
a window ago. -/
def repeats (now : Time) (url : String) (m : OutMessage) (F : Fifo) : Bool :=
  F.accepted.any fun s =>
    decide (s.url = url ∧ m.deduplicationID = some s.dedup ∧ now < s.time + dedupWindow)

def accept (now : Time) (url : String) (m : OutMessage) (F : Fifo) : Fifo :=
  match m.deduplicationID with
  | none => F
  | some dedup => { F with accepted := F.accepted ++ [⟨url, dedup, now⟩] }

/-- No message with the deduplication id is in its window at the instant. -/
def Forgotten (id : String) (t : Time) (F : Fifo) : Prop :=
  ∀ s ∈ F.accepted, s.dedup = id → s.time + dedupWindow ≤ t

instance (id : String) (t : Time) (F : Fifo) : Decidable (F.Forgotten id t) :=
  inferInstanceAs (Decidable (∀ s ∈ F.accepted, s.dedup = id → s.time + dedupWindow ≤ t))

theorem Forgotten.mono {id : String} {t t' : Time} {F : Fifo} (h : F.Forgotten id t) (ht : t ≤ t') :
    F.Forgotten id t' := fun s hs hid => (h s hs hid).trans ht

theorem Forgotten.not_repeats {id url : String} {t : Time} {m : OutMessage} {F : Fifo}
    (h : F.Forgotten id t) (hm : ∀ d, m.deduplicationID = some d → d = id) :
    F.repeats t url m = false := by
  refine List.any_eq_false.mpr fun s hs hrep => ?_
  obtain ⟨-, hd, hlt⟩ := of_decide_eq_true hrep
  exact absurd (h s hs (hm _ hd)) (not_le.mpr hlt)

/-- A queue takes every message that is sent without a deduplication id. -/
theorem not_repeats_none {now : Time} {url : String} {m : OutMessage}
    (hm : m.deduplicationID = none) (F : Fifo) : F.repeats now url m = false := by
  refine List.any_eq_false.mpr fun s _ hrep => ?_
  obtain ⟨-, hd, -⟩ := of_decide_eq_true hrep
  rw [hm] at hd
  cases hd

end Fifo

/-- A send that repeats another is answered and dropped; every other call goes
through. -/
def deduplicate : Filter World Call Answer Fifo
  | .sqs (.sendMessage url m), .ok _, w, w', F =>
    if F.repeats w.clock url m then (w, { F with dropped := F.dropped ++ [m] })
    else (w', F.accept w.clock url m)
  | _, _, _, w', F => (w', F)

def Call.isSend : Call → Bool
  | .sqs (.sendMessage _ _) => true
  | _ => false

theorem deduplicate_of_not_send {c : Call} (hc : c.isSend = false) (a : Answer c) (w w' : World)
    (F : Fifo) : deduplicate c a w w' F = (w', F) := by
  cases c with
  | sqs c => cases c <;> first | rfl | cases hc
  | _ => rfl

def Rules.fifoAct (ρ : Rules) : Choice → (c : Call) → World × Fifo →
    Option (Answer c × (World × Fifo)) := filterAct ρ.act deduplicate

/-- The environment with FIFO queues. -/
def Rules.fifo (ρ : Rules) : Env (World × Fifo) Call Answer := .ofAct ρ.fifoAct

/-- SQS and the process leave the store alone. -/
theorem Rules.fifo_aside {ρ : Rules} {c : Call} {a : Answer c} {x x' : World × Fifo}
    (hc : ∀ d, c ≠ .dynamo d) (h : ρ.fifo c x a x') : x'.1.store = x.1.store := by
  obtain ⟨w', ha, rfl⟩ := filterAct_env.mp h
  have hstore : w'.store = x.1.store := Rules.env_aside hc ha
  rw [deduplicate.eq_def]
  split
  · split
    · rfl
    · exact hstore
  · exact hstore

end OjsSqs
