import OjsSqs.Sqs.Push
import OjsSqs.Text.Labelled
import Mathlib.Data.String.Basic

/-! # What a fingerprint is made from

`computeFingerprint` writes the attributes a policy names into the hash, each
after its label, with nothing between them. A key it does not know writes
nothing, and a key that is named twice writes twice. -/
namespace OjsSqs

/-- The text that is hashed. -/
def fingerprintText (policy : UniquePolicy) (job : Job) : String :=
  String.join ((fingerprintKeys policy).map (fingerprintPart job))

theorem computeFingerprint_eq (cfg : Config) (policy : UniquePolicy) (job : Job) :
    computeFingerprint cfg policy job = cfg.sha256Hex (fingerprintText policy job) := rfl

/-- The keys that write something. -/
inductive HashedKey where
  | args | queue | type
deriving DecidableEq, Repr

namespace HashedKey

def name : HashedKey → String
  | args => "args"
  | queue => "queue"
  | type => "type"

def ofName : String → Option HashedKey
  | "args" => some args
  | "queue" => some queue
  | "type" => some type
  | _ => none

def value (job : Job) : HashedKey → String
  | args => textOfRaw job.args
  | queue => job.queue
  | type => job.type

def label (k : HashedKey) : List Char := (k.name ++ ":").toList

theorem ofName_eq_some {s : String} {k : HashedKey} : ofName s = some k ↔ s = k.name := by
  rw [ofName.eq_def]
  constructor
  · intro h
    split at h <;> cases h <;> rfl
  · rintro rfl
    cases k <;> rfl

/-- The labels begin with different letters. -/
theorem labels : Text.Labels label where
  ne_nil k := by cases k <;> exact List.cons_ne_nil _ _
  apart {k k' s s'} h := by
    have hhead := congrArg List.head? h
    cases k <;> cases k' <;> first | rfl | exact absurd hhead (by simp [label, name])

end HashedKey

/-- What the keys write: each known one its value. -/
def hashedFields (policy : UniquePolicy) (job : Job) : List (HashedKey × List Char) :=
  ((fingerprintKeys policy).filterMap HashedKey.ofName).map fun k => (k, (k.value job).toList)

/-- An attribute of a job. `other` reads the ones the fingerprint does not
know. -/
def attributeOf (other : Job → String → Option String) (job : Job) (key : String) : Option String :=
  match HashedKey.ofName key with
  | some k => some (k.value job)
  | none => other job key

/-- The jobs agree on every attribute named. -/
def AgreeOn (other : Job → String → Option String) (keys : List String) (job job' : Job) : Prop :=
  ∀ key ∈ keys, attributeOf other job key = attributeOf other job' key

/-- The fingerprints of the two jobs compare what the policies name. -/
structure Discerning (other : Job → String → Option String) (policy policy' : UniquePolicy)
    (job job' : Job) : Prop where
  /-- No value goes on into the labels and values after it. -/
  apart : ¬ Text.RunsOver HashedKey.label (hashedFields policy job) (hashedFields policy' job') ∧
    ¬ Text.RunsOver HashedKey.label (hashedFields policy' job') (hashedFields policy job)
  /-- For jobs that agree the known keys are repeated equally often. -/
  repeated : AgreeOn other policy.keys job job' →
    ∀ k : HashedKey, policy.keys.count k.name = policy'.keys.count k.name
  /-- The jobs do not differ in unknown attributes only. -/
  known : (∀ k : HashedKey, policy.keys.count k.name = policy'.keys.count k.name) →
    (∀ k : HashedKey, k.name ∈ policy.keys → k.value job = k.value job') →
    AgreeOn other policy.keys job job'

section
variable {policy policy' : UniquePolicy} {job job' : Job}
  {other : Job → String → Option String}

theorem fingerprintPart_eq (key : String) : fingerprintPart job key =
    ((HashedKey.ofName key).map fun k => k.name ++ ":" ++ k.value job).getD "" := by
  rw [fingerprintPart.eq_def]
  split
  · rfl
  · rfl
  · rfl
  · rename_i htype hargs hqueue
    cases hk : HashedKey.ofName key with
    | none => rfl
    | some k =>
      obtain rfl := HashedKey.ofName_eq_some.mp hk
      cases k
      exacts [absurd rfl hargs, absurd rfl hqueue, absurd rfl htype]

theorem toList_join (l : List String) : (String.join l).toList = l.flatMap String.toList := by
  induction l with
  | nil => rfl
  | cons s l ih => rw [String.join_cons, String.toList_append, ih, List.flatMap_cons]

/-- The text is the fields, one after the other. -/
theorem toList_fingerprintText : (fingerprintText policy job).toList =
    Text.write HashedKey.label (hashedFields policy job) := by
  rw [fingerprintText, toList_join, hashedFields, Text.write, List.flatMap_map]
  induction fingerprintKeys policy with
  | nil => rfl
  | cons key keys ih =>
    rw [List.flatMap_cons, ih, fingerprintPart_eq]
    cases hk : HashedKey.ofName key with
    | none => rw [List.filterMap_cons_none hk]; rfl
    | some k =>
      rw [List.filterMap_cons_some hk, List.map_cons, List.flatMap_cons, Option.map_some,
        Option.getD_some, String.toList_append]
      rfl

theorem fingerprintText_eq : fingerprintText policy job = fingerprintText policy' job' ↔
    hashedFields policy job = hashedFields policy' job' ∨
      Text.RunsOver HashedKey.label (hashedFields policy job) (hashedFields policy' job') ∨
      Text.RunsOver HashedKey.label (hashedFields policy' job') (hashedFields policy job) := by
  rw [← String.toList_inj, toList_fingerprintText, toList_fingerprintText,
    Text.write_eq_iff HashedKey.labels]

theorem fingerprintKeys_perm (h : policy.keys ≠ []) : (fingerprintKeys policy).Perm policy.keys := by
  have hne : policy.keys.isEmpty = false := by
    rw [← Bool.not_eq_true, List.isEmpty_iff]
    exact h
  rw [fingerprintKeys, hne]
  exact List.perm_insertionSort _ _

/-- How often a key is written. -/
theorem count_hashed (h : policy.keys ≠ []) (k : HashedKey) :
    ((fingerprintKeys policy).filterMap HashedKey.ofName).count k = policy.keys.count k.name := by
  rw [← (fingerprintKeys_perm h).count_eq]
  induction fingerprintKeys policy with
  | nil => rfl
  | cons key keys ih =>
    rw [List.count_cons]
    cases hk : HashedKey.ofName key with
    | none =>
      have hne : key ≠ k.name := fun he => by
        rw [HashedKey.ofName_eq_some.mpr he] at hk
        cases hk
      rw [List.filterMap_cons_none hk, ih]
      simp [hne]
    | some k' =>
      have hsame : k' = k ↔ key = k.name := by
        rw [← HashedKey.ofName_eq_some, hk, Option.some.injEq]
      rw [List.filterMap_cons_some hk, List.count_cons, ih]
      simp [hsame]

/-- The keys that write are written in one order. -/
theorem hashed_sorted : ((fingerprintKeys policy).filterMap HashedKey.ofName).Pairwise
    fun k k' => k.name ≤ k'.name := by
  have htotal : Std.Total fun a a' : String => a ≤ a' := ⟨le_total⟩
  have htrans : IsTrans String fun a a' => a ≤ a' := ⟨fun _ _ _ => le_trans⟩
  have hsorted : (fingerprintKeys policy).Pairwise (· ≤ ·) := List.pairwise_insertionSort _ _
  rw [List.pairwise_filterMap]
  refine hsorted.imp fun {s s'} h k hk k' hk' => ?_
  rw [← HashedKey.ofName_eq_some.mp hk, ← HashedKey.ofName_eq_some.mp hk']
  exact h

theorem HashedKey.name_injective {k k' : HashedKey} (h : k.name = k'.name) : k = k' :=
  Option.some.inj ((HashedKey.ofName_eq_some.mpr rfl).symm.trans (HashedKey.ofName_eq_some.mpr h))

/-- The two policies write the same fields for jobs that agree, if they name each
known key equally often. -/
theorem hashedFields_eq (h : policy.keys ≠ []) (h' : policy'.keys ≠ []) :
    hashedFields policy job = hashedFields policy' job' ↔
      (∀ k : HashedKey, policy.keys.count k.name = policy'.keys.count k.name) ∧
        ∀ k : HashedKey, k.name ∈ policy.keys → k.value job = k.value job' := by
  have hmem : ∀ k : HashedKey, k ∈ (fingerprintKeys policy).filterMap HashedKey.ofName ↔
      k.name ∈ policy.keys := by
    intro k
    rw [← List.count_pos_iff, count_hashed h, List.count_pos_iff]
  constructor
  · intro heq
    have hkeys : (fingerprintKeys policy).filterMap HashedKey.ofName =
        (fingerprintKeys policy').filterMap HashedKey.ofName := by
      have hfst := congrArg (List.map Prod.fst) heq
      simpa only [hashedFields, List.map_map, Function.comp_def, List.map_id'] using hfst
    refine ⟨fun k => ?_, fun k hk => ?_⟩
    · rw [← count_hashed h, ← count_hashed h', hkeys]
    · rw [hashedFields, hashedFields, ← hkeys] at heq
      have hpair := List.map_inj_left.mp heq k ((hmem k).mpr hk)
      exact String.toList_inj.mp (Prod.mk.inj hpair).2
  · rintro ⟨hcount, hvalue⟩
    have hperm : ((fingerprintKeys policy).filterMap HashedKey.ofName).Perm
        ((fingerprintKeys policy').filterMap HashedKey.ofName) := by
      rw [List.perm_iff_count]
      intro k
      rw [count_hashed h, count_hashed h', hcount]
    have hkeys := hperm.eq_of_pairwise (fun k k' _ _ hle hge =>
      HashedKey.name_injective (le_antisymm hle hge)) hashed_sorted hashed_sorted
    rw [hashedFields, hashedFields, ← hkeys]
    exact List.map_congr_left fun k hk => by rw [hvalue k ((hmem k).mp hk)]

theorem AgreeOn.values (h : AgreeOn other policy.keys job job') {k : HashedKey}
    (hk : k.name ∈ policy.keys) : k.value job = k.value job' := by
  have hattr := h k.name hk
  rw [attributeOf, attributeOf, HashedKey.ofName_eq_some.mpr rfl] at hattr
  exact Option.some.inj hattr

/-- The value a list of fields gives to a key. -/
theorem hashedFields_mem (h : policy.keys ≠ []) {k : HashedKey} {v : List Char}
    (hm : (k, v) ∈ hashedFields policy job) : k.name ∈ policy.keys ∧ v = (k.value job).toList := by
  obtain ⟨k', hk', he⟩ := List.mem_map.mp hm
  obtain ⟨rfl, rfl⟩ := Prod.mk.inj he
  rw [← List.count_pos_iff, count_hashed h, List.count_pos_iff] at hk'
  exact ⟨hk', rfl⟩

end

/-- **Fingerprints.** For policies that name the same keys, the hashed texts are
the same exactly for jobs that agree, if and only if the fingerprints compare
what the policies name. -/
theorem fingerprints_agree_iff (other : Job → String → Option String) {policy policy' : UniquePolicy}
    (job job' : Job) (h : policy.keys ≠ []) (hsame : ∀ key, key ∈ policy.keys ↔ key ∈ policy'.keys) :
    (fingerprintText policy job = fingerprintText policy' job' ↔
      AgreeOn other policy.keys job job') ↔ Discerning other policy policy' job job' := by
  have h' : policy'.keys ≠ [] := by
    obtain ⟨key, hkey⟩ := List.exists_mem_of_ne_nil _ h
    exact List.ne_nil_of_mem ((hsame key).mp hkey)
  have hfields : hashedFields policy job = hashedFields policy' job' ↔ _ := hashedFields_eq h h'
  -- jobs that agree give every key one value
  have hvalues : AgreeOn other policy.keys job job' → ∀ k v v',
      (k, v) ∈ hashedFields policy job → (k, v') ∈ hashedFields policy' job' → v = v' := by
    intro hagree k v v' hv hv'
    obtain ⟨hk, rfl⟩ := hashedFields_mem h hv
    obtain ⟨-, rfl⟩ := hashedFields_mem h' hv'
    rw [hagree.values hk]
  have hapart : AgreeOn other policy.keys job job' →
      ¬ Text.RunsOver HashedKey.label (hashedFields policy job) (hashedFields policy' job') ∧
        ¬ Text.RunsOver HashedKey.label (hashedFields policy' job') (hashedFields policy job) :=
    fun hagree => ⟨Text.not_runsOver (hvalues hagree),
      Text.not_runsOver fun k v v' hv hv' => (hvalues hagree k v' v hv' hv).symm⟩
  rw [fingerprintText_eq, hfields]
  constructor
  · intro hiff
    refine ⟨?_, fun hagree => ?_, fun hcount hknown => hiff.mp (.inl ⟨hcount, hknown⟩)⟩
    · constructor <;> intro hover
      · exact (hapart (hiff.mp (.inr (.inl hover)))).1 hover
      · exact (hapart (hiff.mp (.inr (.inr hover)))).2 hover
    · exact ((hiff.mpr hagree).resolve_right fun hover =>
        hover.elim (hapart hagree).1 (hapart hagree).2).1
  · intro hd
    constructor
    · rintro (⟨hcount, hknown⟩ | hover | hover)
      exacts [hd.known hcount hknown, absurd hover hd.apart.1, absurd hover hd.apart.2]
    · exact fun hagree => .inl ⟨hd.repeated hagree, fun k hk => hagree.values hk⟩

/-- A job of the runs, with its type and its queue. -/
def typedJob (type queue : String) : Job := { type := type, queue := queue }

theorem fingerprints_agree_iff_order :
    Discerning (fun _ _ => none) { keys := ["type", "queue"] } { keys := ["queue", "type"] }
      (typedJob "email" "default") (typedJob "email" "default") :=
  (fingerprints_agree_iff (fun _ _ => none) (typedJob "email" "default") (typedJob "email" "default")
    (by decide) (by simp [or_comm])).mp (iff_of_true (by decide) fun _ _ => rfl)

/-- The end of a queue's name and the beginning of a type can change places. -/
theorem fingerprints_collide :
    fingerprintText { keys := ["queue", "type"] } (typedJob "btype:c" "a") =
      fingerprintText { keys := ["queue", "type"] } (typedJob "c" "atype:b") ∧
    ¬ AgreeOn (fun _ _ => none) ["queue", "type"] (typedJob "btype:c" "a")
      (typedJob "c" "atype:b") := by
  refine ⟨by decide, fun h => ?_⟩
  have htype := h "type" (by decide)
  exact absurd htype (by decide)

end OjsSqs
