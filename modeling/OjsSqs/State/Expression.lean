import Mathlib.Data.List.AList
import Mathlib.Data.List.Induction
import Mathlib.Data.List.Nodup

/-! # Update expressions

An `UpdateItem` of DynamoDB is a list of assignments and two maps: the names
and the values that stand for the placeholders of the assignments. DynamoDB
refuses an expression that assigns one attribute twice, or whose placeholders
and maps do not match. `updateExpression` is the expression `UpdateJobState`
builds around a map of any entries, and what it does to an item is known for
every such map. -/
namespace OjsSqs

/-- The left side of an assignment. -/
inductive Operand where
  | placeholder (name : String)
  | attr (name : String)
deriving DecidableEq, Repr

structure UpdateExpression (V : Type) where
  clauses : List (Operand × String)
  /-- `ExpressionAttributeNames` -/
  names : AList fun _ : String => String
  /-- `ExpressionAttributeValues` -/
  values : AList fun _ : String => V

/-- An item, by its attributes. -/
abbrev Item (V : Type) := String → Option V

/-- The item with one attribute set. -/
def Item.set {V : Type} (item : Item V) (entry : String × V) : Item V :=
  Function.update item entry.1 (some entry.2)

namespace UpdateExpression
variable {V : Type} (e : UpdateExpression V)

/-- The attribute an operand stands for. -/
def path : Operand → Option String
  | .placeholder name => e.names.lookup name
  | .attr name => some name

/-- The attributes that are assigned, in order. -/
def paths : List (Option String) := e.clauses.map fun clause => e.path clause.1

/-- The name placeholders in the expression. -/
def placeholders : List String := e.clauses.filterMap fun clause => match clause.1 with
  | .placeholder name => some name
  | .attr _ => none

/-- Every placeholder in the expression is bound exactly once, and nothing else
is bound. -/
structure BoundOnce : Prop where
  names : e.placeholders.Perm e.names.keys
  values : (e.clauses.map (·.2)).Perm e.values.keys

instance : Decidable e.BoundOnce :=
  decidable_of_iff (e.placeholders.Perm e.names.keys ∧ (e.clauses.map (·.2)).Perm e.values.keys)
    ⟨fun h => ⟨h.1, h.2⟩, fun h => ⟨h.names, h.values⟩⟩

/-- One assignment. -/
def assign (item : Item V) (clause : Operand × String) : Item V :=
  match e.path clause.1, e.values.lookup clause.2 with
  | some a, some v => Item.set item (a, v)
  | _, _ => item

/-- `UpdateItem`, unless the expression is refused. -/
def apply (item : Item V) : Option (Item V) :=
  if e.paths.Nodup ∧ e.BoundOnce then some (e.clauses.foldl e.assign item) else none

end UpdateExpression

/-! ## The expression of `UpdateJobState` -/

section
variable {V : Type}

/-- `SET #state = :state` -/
def startExpression (newState : V) : UpdateExpression V where
  clauses := [(.placeholder "#state", ":state")]
  names := AList.insert "#state" "state" ∅
  values := AList.insert ":state" newState ∅

/-- One more entry of the map; the placeholders are numbered by the sizes of
the two maps. -/
def UpdateExpression.addEntry (e : UpdateExpression V) (entry : String × V) : UpdateExpression V :=
  let placeholder := ":val" ++ toString e.values.entries.length
  let attrName := "#attr" ++ toString e.names.entries.length
  { clauses := e.clauses ++ [(.placeholder attrName, placeholder)]
    names := e.names.insert attrName entry.1
    values := e.values.insert placeholder entry.2 }

/-- The part before the index attributes. -/
def entriesExpression (newState : V) (updates : List (String × V)) : UpdateExpression V :=
  updates.foldl UpdateExpression.addEntry (startExpression newState)

/-- The expression for a map, whose entries are met in the order of the list. -/
def updateExpression (newState : V) (updates : List (String × V)) (gsi1sk gsi2pk : V) :
    UpdateExpression V :=
  let e := entriesExpression newState updates
  { clauses := e.clauses ++ [(.attr "GSI1SK", ":gsi1sk"), (.attr "GSI2PK", ":gsi2pk")]
    names := e.names
    values := (e.values.insert ":gsi1sk" gsi1sk).insert ":gsi2pk" gsi2pk }

/-- The item with the new state, the entries of the map and the two index
attributes, and otherwise as it was. -/
def overridden (newState : V) (updates : List (String × V)) (gsi1sk gsi2pk : V) (item : Item V) :
    Item V := fun a =>
  if a = "GSI2PK" then some gsi2pk
  else if a = "GSI1SK" then some gsi1sk
  else match updates.lookup a with
    | some v => some v
    | none => if a = "state" then some newState else item a

end

/-! ## The placeholders differ -/

theorem toString_injective {m n : Nat} (h : toString m = toString n) : m = n := by
  have hd : Nat.toDigits 10 m = Nat.toDigits 10 n := by
    rw [← Nat.toList_repr, ← Nat.toList_repr]
    exact congrArg String.toList h
  rw [← Nat.ofDigitChars_ten_toDigits (n := m), hd, Nat.ofDigitChars_ten_toDigits]

theorem append_injective (s : String) {m n : Nat} (h : s ++ toString m = s ++ toString n) : m = n := by
  have hl := congrArg String.toList h
  rw [String.toList_append, String.toList_append] at hl
  exact toString_injective (String.toList_injective (List.append_cancel_left hl))

/-- A numbered placeholder is none that does not begin like it. -/
theorem append_ne {s t : String} {n : Nat}
    (h : t.toList.take s.toList.length ≠ s.toList) : s ++ toString n ≠ t := by
  rintro rfl
  apply h
  rw [String.toList_append, List.take_left]

/-! ## What the expression assigns -/

namespace UpdateExpression
variable {V : Type} {e : UpdateExpression V}

/-- The attributes and the values of the assignments. -/
def assignments (e : UpdateExpression V) : List (Option String × Option V) :=
  e.clauses.map fun clause => (e.path clause.1, e.values.lookup clause.2)

theorem paths_eq (e : UpdateExpression V) : e.paths = e.assignments.map (·.1) := by
  rw [paths, assignments, List.map_map]
  rfl

/-- The maps were filled clause by clause, newest entry first. -/
structure Filled (e : UpdateExpression V) : Prop where
  names : e.names.keys.reverse = e.placeholders
  values : e.values.keys.reverse = e.clauses.map (·.2)

theorem Filled.boundOnce (h : e.Filled) : e.BoundOnce :=
  ⟨h.names ▸ List.reverse_perm _, h.values ▸ List.reverse_perm _⟩

theorem Filled.placeholder_mem (h : e.Filled) {name value : String}
    (hc : (.placeholder name, value) ∈ e.clauses) : name ∈ e.names.keys := by
  rw [← List.mem_reverse, h.names, placeholders, List.mem_filterMap]
  exact ⟨_, hc, rfl⟩

theorem Filled.value_mem (h : e.Filled) {clause : Operand × String} (hc : clause ∈ e.clauses) :
    clause.2 ∈ e.values.keys := by
  rw [← List.mem_reverse, h.values]
  exact List.mem_map_of_mem hc

/-- A new name is nothing to the operands that are there. -/
theorem Filled.path_insert (h : e.Filled) {attrName key : String} (hn : attrName ∉ e.names.keys)
    {clause : Operand × String} (hc : clause ∈ e.clauses)
    (e' : UpdateExpression V) (he : e'.names = e.names.insert attrName key) :
    e'.path clause.1 = e.path clause.1 := by
  obtain ⟨operand, value⟩ := clause
  cases operand with
  | attr name => rfl
  | placeholder name =>
    rw [path, path, he]
    exact AList.lookup_insert_ne fun heq => hn (heq ▸ h.placeholder_mem hc)

theorem Filled.lookup_insert (h : e.Filled) {placeholder : String}
    (hn : placeholder ∉ e.values.keys) (v : V) {clause : Operand × String}
    (hc : clause ∈ e.clauses) :
    (e.values.insert placeholder v).lookup clause.2 = e.values.lookup clause.2 :=
  AList.lookup_insert_ne fun heq => hn (heq ▸ h.value_mem hc)

end UpdateExpression

theorem keys_insert_new {V : Type} {t : AList fun _ : String => V} {k : String} (h : k ∉ t.keys)
    (v : V) : (t.insert k v).keys = k :: t.keys ∧
      (t.insert k v).entries.length = t.entries.length + 1 := by
  rw [AList.insert_of_notMem h]
  exact ⟨rfl, rfl⟩

/-- The expression while the entries are added: its maps are filled, and their
placeholders carry the numbers below their sizes. -/
structure Numbered {V : Type} (newState : V) (updates : List (String × V))
    (e : UpdateExpression V) : Prop where
  filled : e.Filled
  names : ∀ k ∈ e.names.keys, k = "#state" ∨ ∃ m < e.names.entries.length, k = "#attr" ++ toString m
  values : ∀ k ∈ e.values.keys,
    k = ":state" ∨ ∃ m < e.values.entries.length, k = ":val" ++ toString m
  assignments : e.assignments =
    (some "state", some newState) :: updates.map fun entry => (some entry.1, some entry.2)

section
variable {V : Type} {newState gsi1sk gsi2pk : V} {updates : List (String × V)}
  {e : UpdateExpression V}

theorem Numbered.start : Numbered newState [] (startExpression newState) := by
  have hkeys : ∀ {W : Type} (k : String) (v : W), (AList.insert k v ∅ : AList fun _ => W).keys = [k] :=
    fun _ _ => rfl
  refine ⟨⟨rfl, rfl⟩, fun k hk => ?_, fun k hk => ?_, rfl⟩
  · rw [startExpression, hkeys, List.mem_singleton] at hk
    exact .inl hk
  · rw [startExpression, hkeys, List.mem_singleton] at hk
    exact .inl hk

/-- The next placeholders have not been used. -/
theorem Numbered.fresh (h : Numbered newState updates e) :
    "#attr" ++ toString e.names.entries.length ∉ e.names.keys ∧
      ":val" ++ toString e.values.entries.length ∉ e.values.keys := by
  constructor
  · intro hmem
    rcases h.names _ hmem with heq | ⟨m, hm, heq⟩
    · exact append_ne (by decide) heq
    · exact absurd (append_injective _ heq) (ne_of_gt hm)
  · intro hmem
    rcases h.values _ hmem with heq | ⟨m, hm, heq⟩
    · exact append_ne (by decide) heq
    · exact absurd (append_injective _ heq) (ne_of_gt hm)

theorem Numbered.addEntry (h : Numbered newState updates e) (entry : String × V) :
    Numbered newState (updates ++ [entry]) (e.addEntry entry) := by
  obtain ⟨hname, hvalue⟩ := h.fresh
  obtain ⟨hnames, hnlen⟩ := keys_insert_new hname entry.1
  obtain ⟨hvalues, hvlen⟩ := keys_insert_new hvalue entry.2
  refine ⟨⟨?_, ?_⟩, fun k hk => ?_, fun k hk => ?_, ?_⟩
  · rw [UpdateExpression.addEntry, hnames, List.reverse_cons, h.filled.names]
    simp only [UpdateExpression.placeholders, List.filterMap_append, List.filterMap_cons,
      List.filterMap_nil]
  · rw [UpdateExpression.addEntry, hvalues, List.reverse_cons, h.filled.values, List.map_append]
    rfl
  · rw [UpdateExpression.addEntry, hnlen]
    rw [UpdateExpression.addEntry, hnames] at hk
    rcases List.mem_cons.mp hk with rfl | hk
    · exact .inr ⟨_, Nat.lt_succ_self _, rfl⟩
    · exact (h.names k hk).imp_right fun ⟨m, hm, heq⟩ => ⟨m, Nat.lt_succ_of_lt hm, heq⟩
  · rw [UpdateExpression.addEntry, hvlen]
    rw [UpdateExpression.addEntry, hvalues] at hk
    rcases List.mem_cons.mp hk with rfl | hk
    · exact .inr ⟨_, Nat.lt_succ_self _, rfl⟩
    · exact (h.values k hk).imp_right fun ⟨m, hm, heq⟩ => ⟨m, Nat.lt_succ_of_lt hm, heq⟩
  · rw [UpdateExpression.assignments, UpdateExpression.addEntry, List.map_append, List.map_append,
      ← List.cons_append, ← h.assignments]
    congr 1
    · refine List.map_congr_left fun clause hc => Prod.ext ?_ ?_
      · exact h.filled.path_insert hname hc _ rfl
      · exact h.filled.lookup_insert hvalue entry.2 hc
    · simp only [List.map_cons, List.map_nil, UpdateExpression.path, AList.lookup_insert]

theorem numbered_entries (newState : V) (updates : List (String × V)) :
    Numbered newState updates (entriesExpression newState updates) := by
  induction updates using List.reverseRecOn with
  | nil => exact .start
  | append_singleton updates entry ih =>
    rw [entriesExpression, List.foldl_append]
    exact ih.addEntry entry

/-- All assignments of the finished expression. -/
theorem updateExpression_spec (newState : V) (updates : List (String × V)) (gsi1sk gsi2pk : V) :
    (updateExpression newState updates gsi1sk gsi2pk).BoundOnce ∧
      (updateExpression newState updates gsi1sk gsi2pk).assignments =
        ((("state", newState) :: updates) ++ [("GSI1SK", gsi1sk), ("GSI2PK", gsi2pk)]).map
          (fun entry => (some entry.1, some entry.2)) := by
  have h := numbered_entries newState updates
  rw [updateExpression]
  generalize entriesExpression newState updates = e at h
  have hval : ∀ t : String, t.toList.take ":val".toList.length ≠ ":val".toList → t ≠ ":state" →
      t ∉ e.values.keys := by
    intro t ht hstate hmem
    rcases h.values t hmem with heq | ⟨m, -, heq⟩
    · exact hstate heq
    · exact append_ne ht heq.symm
  have hsk : ":gsi1sk" ∉ e.values.keys := hval _ (by decide) (by decide)
  obtain ⟨hkeys, -⟩ := keys_insert_new hsk gsi1sk
  have hpk : ":gsi2pk" ∉ (e.values.insert ":gsi1sk" gsi1sk).keys := by
    rw [hkeys, List.mem_cons, not_or]
    exact ⟨by decide, hval _ (by decide) (by decide)⟩
  obtain ⟨hkeys', -⟩ := keys_insert_new hpk gsi2pk
  constructor
  · refine UpdateExpression.Filled.boundOnce ⟨?_, ?_⟩
    · simp only [h.filled.names, UpdateExpression.placeholders, List.filterMap_append,
        List.filterMap_cons, List.filterMap_nil, List.append_nil]
    · simp only [hkeys', hkeys, List.reverse_cons, h.filled.values, List.map_append, List.map_cons,
        List.map_nil, List.append_assoc, List.cons_append, List.nil_append]
  · refine List.map_append.trans (Eq.trans ?_ List.map_append.symm)
    congr 1
    refine (List.map_congr_left fun clause hc => Prod.ext ?_ ?_).trans h.assignments
    · obtain ⟨operand, value⟩ := clause
      cases operand <;> rfl
    · have hmem := h.filled.value_mem hc
      exact (AList.lookup_insert_ne fun heq => hpk (by rw [hkeys, ← heq]; exact .tail _ hmem)).trans
        (h.filled.lookup_insert hsk gsi1sk hc)

end

/-! ## What it does to an item -/

section
variable {V : Type} {newState gsi1sk gsi2pk : V} {updates : List (String × V)}

/-- The attributes of the finished expression, as entries of one list. -/
abbrev allEntries (newState : V) (updates : List (String × V)) (gsi1sk gsi2pk : V) :
    List (String × V) :=
  (("state", newState) :: updates) ++ [("GSI1SK", gsi1sk), ("GSI2PK", gsi2pk)]

/-- They differ unless the map has an entry for the state: its keys differ, and
none is an attribute of an index. -/
theorem allEntries_nodup_iff (hkeys : (updates.map (·.1)).Nodup)
    (hsk : "GSI1SK" ∉ updates.map (·.1)) (hpk : "GSI2PK" ∉ updates.map (·.1)) :
    ((allEntries newState updates gsi1sk gsi2pk).map (·.1)).Nodup ↔
      "state" ∉ updates.map (·.1) := by
  rw [allEntries, List.map_append, List.map_cons, List.cons_append, List.nodup_cons,
    List.nodup_append, List.mem_append, not_or]
  simp only [List.map_cons, List.map_nil]
  constructor
  · exact fun h => h.1.1
  · refine fun h => ⟨⟨h, by decide⟩, hkeys, by decide, fun k hk k' hk' heq => ?_⟩
    subst heq
    rcases List.mem_cons.mp hk' with rfl | hk'
    · exact hsk hk
    · exact hpk (List.mem_singleton.mp hk' ▸ hk)

theorem lookup_absent {l : List (String × V)} {a : String} (h : a ∉ l.map (·.1)) :
    l.lookup a = none := by
  rw [List.lookup_eq_none_iff]
  exact fun entry he => bne_iff_ne.mpr fun heq => h (List.mem_map.mpr ⟨entry, he, heq.symm⟩)

/-- Assigning different attributes one after the other. -/
theorem set_all {l : List (String × V)} (hl : (l.map (·.1)).Nodup) (item : Item V) (a : String) :
    l.foldl Item.set item a = (l.lookup a).or (item a) := by
  induction l generalizing item with
  | nil => rfl
  | cons entry l ih =>
    obtain ⟨k, v⟩ := entry
    obtain ⟨hk, hl⟩ := List.nodup_cons.mp hl
    rw [List.foldl_cons, ih hl, List.lookup_cons, Item.set]
    by_cases ha : a = k
    · subst ha
      rw [lookup_absent hk, beq_self_eq_true, Function.update_self]
      rfl
    · rw [Function.update_of_ne ha, beq_false_of_ne ha]

/-- The clauses set the entries they resolve to. -/
theorem UpdateExpression.foldl_assign {e : UpdateExpression V} {clauses : List (Operand × String)}
    {l : List (String × V)}
    (h : clauses.map (fun clause => (e.path clause.1, e.values.lookup clause.2)) =
      l.map fun entry => (some entry.1, some entry.2)) (item : Item V) :
    clauses.foldl e.assign item = l.foldl Item.set item := by
  induction clauses generalizing l item with
  | nil => rw [List.map_eq_nil_iff.mp h.symm, List.foldl_nil, List.foldl_nil]
  | cons clause clauses ih =>
    cases l with
    | nil => cases h
    | cons entry l =>
      obtain ⟨hhead, htail⟩ := List.cons.inj h
      obtain ⟨hp, hv⟩ := Prod.mk.inj hhead
      rw [List.foldl_cons, List.foldl_cons, ih htail, UpdateExpression.assign, hp, hv]

/-- No attribute is assigned twice, unless the map has an entry for the state. -/
theorem updateExpression_paths (newState gsi1sk gsi2pk : V) (hkeys : (updates.map (·.1)).Nodup)
    (hsk : "GSI1SK" ∉ updates.map (·.1)) (hpk : "GSI2PK" ∉ updates.map (·.1)) :
    (updateExpression newState updates gsi1sk gsi2pk).paths.Nodup ↔
      "state" ∉ updates.map (·.1) := by
  have hpaths : (updateExpression newState updates gsi1sk gsi2pk).paths =
      ((allEntries newState updates gsi1sk gsi2pk).map (·.1)).map some := by
    rw [UpdateExpression.paths_eq, (updateExpression_spec newState updates gsi1sk gsi2pk).2,
      List.map_map, List.map_map]
    rfl
  rw [hpaths, List.nodup_map_iff fun _ _ => Option.some.inj, allEntries_nodup_iff hkeys hsk hpk]

/-- An expression that is not refused overrides the item. -/
theorem updateExpression_apply (newState gsi1sk gsi2pk : V) (hkeys : (updates.map (·.1)).Nodup)
    (hsk : "GSI1SK" ∉ updates.map (·.1)) (hpk : "GSI2PK" ∉ updates.map (·.1)) (item : Item V) :
    (updateExpression newState updates gsi1sk gsi2pk).apply item =
      if "state" ∈ updates.map (·.1) then none
      else some (overridden newState updates gsi1sk gsi2pk item) := by
  obtain ⟨hbound, hass⟩ := updateExpression_spec newState updates gsi1sk gsi2pk
  have hpaths := updateExpression_paths newState gsi1sk gsi2pk hkeys hsk hpk
  rw [UpdateExpression.apply]
  by_cases hs : "state" ∈ updates.map (·.1)
  · rw [if_pos hs, if_neg fun h => hpaths.mp h.1 hs]
  · rw [if_neg hs, if_pos ⟨hpaths.mpr hs, hbound⟩, UpdateExpression.foldl_assign hass]
    congr 1
    funext a
    rw [set_all ((allEntries_nodup_iff hkeys hsk hpk).mpr hs), overridden, List.lookup_append,
      List.lookup_cons]
    by_cases hp : a = "GSI2PK"
    · subst hp
      rw [if_pos rfl, lookup_absent hpk]
      rfl
    rw [if_neg hp]
    by_cases hk : a = "GSI1SK"
    · subst hk
      rw [if_pos rfl, lookup_absent hsk]
      rfl
    rw [if_neg hk, List.lookup_cons, List.lookup_cons, beq_false_of_ne hk, beq_false_of_ne hp]
    by_cases ha : a = "state"
    · subst ha
      rw [lookup_absent hs]
      rfl
    · rw [beq_false_of_ne ha, if_neg ha]
      cases updates.lookup a <;> rfl

end

end OjsSqs
