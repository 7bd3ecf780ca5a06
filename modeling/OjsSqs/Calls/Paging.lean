import Mathlib.Data.List.Basic

/-! # Reads that are answered in pages

A service evaluates the items of a table or an index in their order and may
stop a response anywhere after the first of them: then the response carries the
key the next request starts from. A `Split` is one way of stopping. A reader that
follows the keys gets every item, and one that does not gets those that the
first response evaluated. -/

namespace Calls

/-- Where the service stops. -/
structure Split where
  /-- how many items beyond the first a response evaluates that starts here -/
  size : Nat → Nat
  /-- a response that has come to the end still carries a key -/
  trailing : Bool

structure Page (α : Type) where
  items : List α
  lastKey : Option Nat

namespace Split

variable {α β : Type} (s : Split) (limit : Option Nat) (items : List α)

/-- The place after the last item a response evaluates. -/
def stop (start : Nat) : Nat :=
  let evaluated := match limit with
    | none => s.size start + 1
    | some l => min l (s.size start + 1)
  min items.length (start + evaluated)

/-- The response to a request that starts at the place `start`. -/
def page (start : Nat) : Page α where
  items := (items.take (s.stop limit items start)).drop start
  lastKey :=
    if s.stop limit items start < items.length ∨
      s.trailing = true ∧ start < s.stop limit items start
    then some (s.stop limit items start) else none

/-- The items of the first response. -/
def first : List α := (s.page limit items 0).items

theorem first_eq : s.first limit items = items.take (s.stop limit items 0) := rfl

theorem filterMap_split (f : α → Option β) :
    items.filterMap f =
      (s.first limit items).filterMap f ++ (items.drop (s.stop limit items 0)).filterMap f := by
  rw [first_eq, ← List.filterMap_append, List.take_append_drop]

/-- What one response holds of the items that a reader looks for. -/
theorem filterMap_first (f : α → Option β) :
    (s.first limit items).filterMap f = items.filterMap f ↔
      ∀ x ∈ items.drop (s.stop limit items 0), f x = none := by
  rw [s.filterMap_split limit items f, List.self_eq_append_right, List.filterMap_eq_nil_iff]

theorem length_first : (s.first limit items).length = items.length ↔
    items.length ≤ s.stop limit items 0 := by
  rw [first_eq, List.length_take]
  omega

/-- A response that may hold everything, and the same with a limit. -/
theorem first_of_length_le {s : Split} {items : List α} (h : items.length ≤ s.size 0) :
    s.first none items = items := by
  rw [first_eq, List.take_of_length_le]
  simp only [stop]
  omega

theorem first_limited {s : Split} {items : List α} (h : items.length ≤ s.size 0) (n : Nat) :
    s.first (some n) items = items.take n := by
  rw [first_eq, List.take_eq_take_iff]
  simp only [stop]
  omega

/-- A slice of the items that the first response holds. -/
theorem slice_first (offset count : Nat) :
    ((s.first limit items).drop offset).take count = (items.drop offset).take count ↔
      items.length ≤ offset ∨ count = 0 ∨
        min items.length (offset + count) ≤ s.stop limit items 0 := by
  rw [first_eq]
  generalize s.stop limit items 0 = n
  constructor
  · intro h
    have hlen := congrArg List.length h
    simp only [List.length_take, List.length_drop] at hlen
    omega
  · intro h
    refine List.ext_getElem? fun i => ?_
    simp only [List.getElem?_take, List.getElem?_drop]
    by_cases hi : i < count
    · rw [if_pos hi, if_pos hi]
      by_cases hn : offset + i < n
      · rw [if_pos hn]
      · rw [if_neg hn, eq_comm, List.getElem?_eq_none_iff]
        omega
    · rw [if_neg hi, if_neg hi]

/-- The reader that goes on while there is a key. -/
def readAll : Nat → Nat → Option (List α)
  | 0, _ => none
  | fuel + 1, start =>
    let p := s.page none items start
    match p.lastKey with
    | none => some p.items
    | some key => (readAll fuel key).map (p.items ++ ·)

/-- **Following the keys** gives every item: each response evaluates one at
least, and the last one may be empty. -/
theorem readAll_eq {fuel start : Nat} (hstart : start ≤ items.length)
    (hfuel : items.length + 1 < fuel + start) :
    s.readAll items fuel start = some (items.drop start) := by
  induction fuel generalizing start with
  | zero => omega
  | succ fuel ih =>
    have hle : s.stop none items start ≤ items.length := Nat.min_le_left _ _
    have hge : start ≤ s.stop none items start := by
      simp only [stop]
      omega
    have hstep : start < items.length → start < s.stop none items start := by
      intro h
      simp only [stop]
      omega
    have hpage : (items.take (s.stop none items start)).drop start ++
        items.drop (s.stop none items start) = items.drop start := by
      have hrest : items.drop (s.stop none items start) =
          (items.drop start).drop (s.stop none items start - start) := by
        rw [List.drop_drop, Nat.add_sub_cancel' hge]
      rw [List.drop_take, hrest, List.take_append_drop]
    rw [readAll]
    simp only [page]
    split
    · rename_i hkey
      split at hkey
      · cases hkey
      · rename_i hlast
        have hend : s.stop none items start = items.length := by omega
        rw [hend, List.take_length]
    · rename_i key hkey
      split at hkey
      · rename_i hmore
        cases hkey
        have hlt : start < s.stop none items start := by
          rcases hmore with hmore | hmore
          · exact hstep (Nat.lt_of_le_of_lt hge hmore)
          · exact hmore.2
        rw [ih hle (by omega), Option.map_some, hpage]
      · cases hkey

end Split

/-- Slices of one length, one after the other. -/
theorem flatMap_slices {α : Type} (l : List α) (m c : Nat) :
    ((List.range c).flatMap fun k => (l.drop (m * k)).take m) = l.take (m * c) := by
  induction c with
  | zero => rfl
  | succ c ih =>
    rw [List.range_succ, List.flatMap_append, ih, List.flatMap_singleton, Nat.mul_succ,
      List.take_add]

end Calls
