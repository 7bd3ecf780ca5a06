import OjsSqs.Racing.Movers

/-! # Each due job is sent once

When no process lists a job that is on another's list already, and no Cancel
writes a job that a process has listed and not freed yet, each listed job is
sent once, and a cancelled job stays cancelled. -/
namespace OjsSqs
open Calls

variable {ι : Type}

/-! ## What a process has done -/

/-- A due list that names the job. -/
def listsJob (id : String) : Event ι Call Answer → Bool
  | ⟨_, .dynamo (.queryDue _ _), .ok ids⟩ => decide (id ∈ ids)
  | ⟨_, .dynamo (.scanDue _ _), .ok ids⟩ => decide (id ∈ ids)
  | _ => false

/-- The job is written available. -/
def freesJob (id : String) : Event ι Call Answer → Bool
  | ⟨_, .dynamo (.updateJobItem k s _ _ _), _⟩ => decide (k = id ∧ s = .available)
  | _ => false

/-- The job is written cancelled. -/
def cancelsJob (id : String) : Event ι Call Answer → Bool
  | ⟨_, .dynamo (.updateJobItem k s _ _ _), _⟩ => decide (k = id ∧ s = .cancelled)
  | _ => false

/-- The job is sent to SQS. -/
def sendsJob (id : String) : Event ι Call Answer → Bool
  | ⟨_, .sqs (.sendMessage _ m), _⟩ => decide (m.body.id = id)
  | _ => false

/-- No process lists the job when one has listed it already, and no Cancel
writes it while a process that has listed it has not freed it. -/
structure MovesApart (id : String) (tr : List (Event ι Call Answer)) (_ : World)
    (e : Event ι Call Answer) : Prop where
  lists : listsJob id e = true → ∀ b ∈ tr, listsJob id b = false
  cancels : cancelsJob id e = true → ∀ b ∈ tr, listsJob id b = true →
    ∃ f ∈ tr, f.thread = b.thread ∧ freesJob id f = true

/-- A job that waits in the index is stored, and fits into a message. -/
def World.Promotable (cfg : Config) (index : DueIndex) (id : String) (w : World) : Prop :=
  (w.store.due index).lookup id ≠ none →
    ∃ r, w.store.jobs.lookup id = some r ∧ ∀ t, encodes cfg (promotedJob cfg t r) = true

/-! ## Calls without faults -/

section
variable {ρ : Rules} {w w' : World} (hρ : ρ.faults = false)
include hρ

theorem Rules.env_sqs_ok {c : SqsCall} {r : Except AwsError c.Answer} (h : ρ.env (.sqs c) w r w') :
    ∃ a, r = .ok a := by
  obtain ⟨ch, q', ha, he, -⟩ := Rules.env_sqs h
  have hf := Rules.not_fault hρ ha
  cases ch with
  | fault m => cases hf
  | noIndex => cases hf
  | refuse places => cases hf
  | firstPage places => cases hf
  | ok => cases c <;> simp only [SqsState.act, reduceCtorEq, Option.some.injEq, Prod.mk.injEq] at he <;>
      exact ⟨_, he.1.symm⟩
  | deliver ids =>
    cases c <;> simp only [SqsState.act, reduceCtorEq] at he
    obtain ⟨-, he⟩ := Option.ite_none_right_eq_some.mp he
    cases he
    exact ⟨_, rfl⟩
  | page ids => cases c <;> cases he
  | tick t => cases c <;> cases he
  | uuid u => cases c <;> cases he

/-- A due list names due jobs, each once. -/
theorem Rules.env_queryDue {i : DueIndex} {n : Int} {r : Except AwsError (List String)}
    (h : ρ.env (.dynamo (.queryDue i n)) w r w') :
    ∃ ids, r = .ok ids ∧ w.store.isDuePage i n ids = true ∧ w' = w := by
  obtain ⟨ch, s', ha, he, rfl⟩ := Rules.env_dynamo h
  have hf := Rules.not_fault hρ ha
  cases ch <;> first
    | (cases hf; done)
    | cases he
    | (obtain ⟨hp, he⟩ := Option.ite_none_right_eq_some.mp he
       cases he
       exact ⟨_, rfl, ((Bool.and_eq_true _ _).mp hp).1, rfl⟩)

theorem Rules.env_scanDue {i : DueIndex} {n : Int} {r : Except AwsError (List String)}
    (h : ρ.env (.dynamo (.scanDue i n)) w r w') :
    ∃ ids, r = .ok ids ∧ w.store.isDuePage i n ids = true ∧ w' = w := by
  obtain ⟨ch, s', ha, he, rfl⟩ := Rules.env_dynamo h
  have hf := Rules.not_fault hρ ha
  cases ch <;> first
    | (cases hf; done)
    | cases he
    | (obtain ⟨hp, he⟩ := Option.ite_none_right_eq_some.mp he
       cases he
       exact ⟨_, rfl, hp, rfl⟩)

end

/-- A marker that a call neither writes nor removes. -/
theorem Rules.env_marker {ρ : Rules} {w w' : World} {c : Call} {r : Answer c} {i : DueIndex}
    {id : String} (hput : ∀ j n, c ≠ .dynamo (.putDueItem j id n))
    (hdel : c ≠ .dynamo (.deleteDueItem i id)) (h : ρ.env c w r w') :
    (w'.store.due i).lookup id = (w.store.due i).lookup id := by
  refine Rules.env_frame (fun s => (s.due i).lookup id) (fun d hd => ?_) h
  subst hd
  cases d with
  | putDueItem j k n =>
    simp only [Store.run, Store.setDue]
    by_cases hj : i = j
    · subst hj
      rw [Function.update_self]
      exact AList.lookup_insert_ne fun hk => hput i n (by rw [hk])
    · rw [Function.update_of_ne hj]
  | deleteDueItem j k =>
    simp only [Store.run, Store.setDue]
    by_cases hj : i = j
    · subst hj
      rw [Function.update_self]
      exact AList.lookup_erase_ne fun hk => hdel (by rw [hk])
    · rw [Function.update_of_ne hj]
  | _ => simp only [Store.run] <;> (try split) <;> rfl

/-- A removed marker is gone. -/
theorem Rules.env_unmark {ρ : Rules} {w w' : World} {i : DueIndex} {id : String}
    {a : Except AwsError Unit} (hρ : ρ.faults = false)
    (h : ρ.env (.dynamo (.deleteDueItem i id)) w a w') : (w'.store.due i).lookup id = none := by
  obtain ⟨-, rfl⟩ := Rules.env_run hρ rfl h
  simp only [World.setStore, Store.run, Store.setDue, Function.update_self, AList.lookup_erase]

/-! ## The invariant -/

/-- The process is not about to promote the job. -/
def Stage.isAway : Stage → Bool
  | .away | .cancelling | .cleared => true
  | _ => false

section
variable (index : DueIndex) (id : String) (op : ι → Mover) (w₀ : World)
  (tr : List (Event ι Call Answer)) (w : World) (t : ι → Stage)

/-- Nobody has listed the job. Its marker is there as long as no Cancel has
removed it, and so is its record. -/
structure Unlisted : Prop where
  lists : ∀ e ∈ tr, listsJob id e = false
  frees : ∀ e ∈ tr, freesJob id e = false
  sends : ∀ e ∈ tr, sendsJob id e = false
  stages : ∀ i, (t i).isAway = true
  marker : (w.store.due index).lookup id = (w₀.store.due index).lookup id ∨
    (w.store.due index).lookup id = none ∧
      ∃ e ∈ tr, op e.thread = .cancel id ∧ e.call = .dynamo (.deleteDueItem index id)
  record : w.store.jobs.lookup id = w₀.store.jobs.lookup id ∨
    (w.store.due index).lookup id = none
  cancels : ∀ e ∈ tr, cancelsJob id e = true → (w.store.due index).lookup id = none

/-- The process that has listed the job has not freed it. -/
structure Waits (r : JobRecord) : Prop where
  record : w.store.jobs.lookup id = some r
  frees : ∀ e ∈ tr, freesJob id e = false
  sends : tr.countP (sendsJob id) = 0

/-- The process has freed the job, and sent it so many times. -/
structure Freed (n : Nat) : Prop where
  frees : ∃ e ∈ tr, freesJob id e = true
  sends : tr.countP (sendsJob id) = n

/-- What the stage of the process that has listed the job says. -/
inductive Carries (r : JobRecord) : Stage → Prop
  | listed : Waits id tr w r → Carries r .listed
  | loaded : Waits id tr w r → Carries r (.loaded r)
  | unmarked : Waits id tr w r → Carries r (.unmarked r)
  | clocked (now : Time) : Waits id tr w r → Carries r (.clocked r now)
  | freed (now : Time) : Freed id tr 0 → Carries r (.freed r now)
  | sent : Freed id tr 1 → Carries r .sent

/-- One process has listed the job. -/
structure Listed (r : JobRecord) (i : ι) : Prop where
  lists : tr.countP (listsJob id) = 1
  lister : ∃ e ∈ tr, e.thread = i ∧ listsJob id e = true
  others : ∀ k, k ≠ i → (t k).isAway = true
  carries : Carries id tr w r (t i)
  cancels : ∀ before e after, tr = before ++ e :: after → cancelsJob id e = true →
    ∃ f ∈ before, freesJob id f = true

/-- Where a run stands. -/
structure Underway (cfg : Config) : Prop where
  named : w.NamedJobs
  kinds : ∀ i, t i = .cancelling ∨ t i = .cleared → op i = .cancel id
  cleared : ∀ i, t i = .cleared → (w.store.due index).lookup id = none
  phase : Unlisted index id op w₀ tr w t ∨
    ∃ r i, (∀ now, encodes cfg (promotedJob cfg now r) = true) ∧ Listed id tr w t r i

end

/-! ## One step -/

/-- Every record stays under its own identifier. -/
theorem Rules.env_named {ρ : Rules} {w w' : World} {c : Call} {r : Answer c} (h : ρ.env c w r w')
    (hn : w.NamedJobs) : w'.NamedJobs := by
  cases c with
  | dynamo d =>
    obtain ⟨ch, s', -, he, rfl⟩ := Rules.env_dynamo h
    rcases Store.act_cases he with hr | rfl
    · have hs : s' = (w.store.run d).2 := congrArg Prod.snd hr
      intro id x hx
      rw [World.setStore, hs] at hx
      cases d with
      | putJobItem y =>
        by_cases hid : id = y.id
        · subst hid
          rw [Store.run, AList.lookup_insert] at hx
          cases hx
          rfl
        · rw [Store.run, AList.lookup_insert_ne hid] at hx
          exact hn id x hx
      | updateJobItem k st us sk pk =>
        by_cases hid : id = k
        · subst hid
          rw [Store.run, AList.lookup_insert] at hx
          cases hx
          rw [JobRecord.update_id]
          cases hy : w.store.jobs.lookup id with
          | none => rfl
          | some y => exact hn id y hy
        · rw [Store.run, AList.lookup_insert_ne hid] at hx
          exact hn id x hx
      | _ =>
        revert hx
        simp only [Store.run]
        (try split) <;> exact hn id x
    · exact hn
  | sqs c =>
    intro id x hx
    rw [Rules.env_aside (fun _ hd => by cases hd) h] at hx
    exact hn id x hx
  | proc c =>
    intro id x hx
    rw [Rules.env_aside (fun _ hd => by cases hd) h] at hx
    exact hn id x hx

/-- What an event says nothing about. -/
structure Quiet (id : String) (e : Event ι Call Answer) : Prop where
  lists : listsJob id e = false
  frees : freesJob id e = false
  sends : sendsJob id e = false

section
variable {cfg : Config} {index : DueIndex} {id : String} {op : ι → Mover} {w₀ : World}
  {tr : List (Event ι Call Answer)} {w w' : World} {t : ι → Stage} {r : JobRecord}
  {e : Event ι Call Answer} {s : Stage} {n : Nat}

theorem Waits.append (h : Waits id tr w r) (hq : Quiet id e)
    (hrec : w'.store.jobs.lookup id = w.store.jobs.lookup id) : Waits id (tr ++ [e]) w' r where
  record := hrec.trans h.record
  frees b hb := by
    rcases List.mem_append.mp hb with hb | hb
    · exact h.frees b hb
    · rw [List.mem_singleton.mp hb]
      exact hq.frees
  sends := by rw [List.countP_append, h.sends, List.countP_singleton, hq.sends]; rfl

theorem Freed.append (h : Freed id tr n) (hs : sendsJob id e = false) :
    Freed id (tr ++ [e]) n where
  frees := by
    obtain ⟨f, hf, hfree⟩ := h.frees
    exact ⟨f, List.mem_append_left _ hf, hfree⟩
  sends := by rw [List.countP_append, h.sends, List.countP_singleton, hs]; rfl

/-- The job is not touched, or it is cancelled after it has been freed. -/
theorem Carries.append (h : Carries id tr w r s) (hq : Quiet id e)
    (hrec : w'.store.jobs.lookup id = w.store.jobs.lookup id ∨ ∃ f ∈ tr, freesJob id f = true) :
    Carries id (tr ++ [e]) w' r s := by
  have hwaits : Waits id tr w r → Waits id (tr ++ [e]) w' r := fun hw => by
    refine hw.append hq (hrec.resolve_right ?_)
    rintro ⟨f, hf, hfree⟩
    rw [hw.frees f hf] at hfree
    cases hfree
  cases h with
  | listed h => exact .listed (hwaits h)
  | loaded h => exact .loaded (hwaits h)
  | unmarked h => exact .unmarked (hwaits h)
  | clocked now h => exact .clocked now (hwaits h)
  | freed now h => exact .freed now (h.append hq.sends)
  | sent h => exact .sent (h.append hq.sends)

theorem Carries.sends_le (h : Carries id tr w r s) : tr.countP (sendsJob id) ≤ 1 := by
  cases h with
  | listed h | loaded h | unmarked h => rw [h.sends]; exact Nat.zero_le _
  | clocked _ h => rw [h.sends]; exact Nat.zero_le _
  | freed _ h => rw [h.sends]; exact Nat.zero_le _
  | sent h => exact le_of_eq h.sends

theorem Carries.not_away (h : Carries id tr w r s) : s.isAway = false := by
  cases h <;> rfl

/-- A Cancel that was not too early stays so. -/
theorem early_append {tr : List (Event ι Call Answer)}
    (h : ∀ before b after, tr = before ++ b :: after → cancelsJob id b = true →
      ∃ f ∈ before, freesJob id f = true)
    (he : cancelsJob id e = true → ∃ f ∈ tr, freesJob id f = true) :
    ∀ before b after, tr ++ [e] = before ++ b :: after → cancelsJob id b = true →
      ∃ f ∈ before, freesJob id f = true := by
  intro before b after htr hb
  rcases List.eq_nil_or_concat after with rfl | ⟨after, c, rfl⟩
  · obtain ⟨rfl, hbe⟩ := List.append_inj' htr rfl
    cases hbe
    exact he hb
  · rw [List.concat_eq_append, ← List.cons_append, ← List.append_assoc] at htr
    obtain ⟨htr, -⟩ := List.append_inj' htr rfl
    exact h before b after htr hb

variable [DecidableEq ι] {i : ι}

/-- A step of a process that is not about to promote the job. -/
theorem Underway.aside (h : Underway index id op w₀ tr w t cfg) {c : Call} {a : Answer c}
    (hok : MovesApart id tr w ⟨i, c, a⟩) (haway : (t i).isAway = true) (hs : s.isAway = true)
    (hq : Quiet id ⟨i, c, a⟩) (hcan : cancelsJob id ⟨i, c, a⟩ = true → t i = .cleared)
    (hrec : w'.store.jobs.lookup id = w.store.jobs.lookup id ∨ cancelsJob id ⟨i, c, a⟩ = true)
    (hmark : (w'.store.due index).lookup id = (w.store.due index).lookup id ∨
      (w'.store.due index).lookup id = none ∧ op i = .cancel id ∧
        c = .dynamo (.deleteDueItem index id)) :
    Unlisted index id op w₀ (tr ++ [⟨i, c, a⟩]) w' (Function.update t i s) ∨
      ∃ r k, (∀ now, encodes cfg (promotedJob cfg now r) = true) ∧
        Listed id (tr ++ [⟨i, c, a⟩]) w' (Function.update t i s) r k := by
  have hgone : (w.store.due index).lookup id = none → (w'.store.due index).lookup id = none := by
    intro hnone
    rcases hmark with hm | ⟨hm, -⟩
    · rw [hm, hnone]
    · exact hm
  have hstages : ∀ k, (t k).isAway = true → (Function.update t i s k).isAway = true := fun k hk => by
    by_cases hki : k = i
    · rw [hki, Function.update_self]
      exact hs
    · rwa [Function.update_of_ne hki]
  have hlast : ∀ {P : Event ι Call Answer → Prop}, (∀ b ∈ tr, P b) → P ⟨i, c, a⟩ →
      ∀ b ∈ tr ++ [⟨i, c, a⟩], P b := fun hold hnew b hb => by
    rcases List.mem_append.mp hb with hb | hb
    · exact hold b hb
    · rw [List.mem_singleton.mp hb]
      exact hnew
  rcases h.phase with hu | ⟨r, k, hfit, hl⟩
  · refine .inl ⟨hlast hu.lists hq.lists, hlast hu.frees hq.frees, hlast hu.sends hq.sends,
      fun k => hstages k (hu.stages k), ?_, ?_,
      hlast (fun b hb hc => hgone (hu.cancels b hb hc)) fun hc => hgone (h.cleared i (hcan hc))⟩
    · rcases hmark with hm | ⟨hm, ho, hc⟩
      · rw [hm]
        rcases hu.marker with hsame | ⟨hnone, b, hb, hby⟩
        · exact .inl hsame
        · exact .inr ⟨hnone, b, List.mem_append_left _ hb, hby⟩
      · exact .inr ⟨hm, ⟨i, c, a⟩, List.mem_append_right _ (List.mem_singleton_self _), ho, hc⟩
    · rcases hrec with hr | hc
      · rcases hu.record with hsame | hnone
        · exact .inl (hr.trans hsame)
        · exact .inr (hgone hnone)
      · exact .inr (hgone (h.cleared i (hcan hc)))
  · have hik : i ≠ k := fun hik => by
      rw [hik, hl.carries.not_away] at haway
      cases haway
    obtain ⟨b, hb, -, hlb⟩ := hl.lister
    have hfree : cancelsJob id ⟨i, c, a⟩ = true → ∃ f ∈ tr, freesJob id f = true := fun hc => by
      obtain ⟨f, hf, -, hfree⟩ := hok.cancels hc b hb hlb
      exact ⟨f, hf, hfree⟩
    refine .inr ⟨r, k, hfit, ?_, ?_, fun m hm => hstages m (hl.others m hm), ?_,
      early_append hl.cancels hfree⟩
    · rw [List.countP_append, hl.lists, List.countP_singleton, hq.lists]
      rfl
    · obtain ⟨b, hb, hby⟩ := hl.lister
      exact ⟨b, List.mem_append_left _ hb, hby⟩
    · rw [Function.update_of_ne (Ne.symm hik)]
      exact hl.carries.append hq (hrec.imp (fun h => h) hfree)

omit [DecidableEq ι] in
/-- The process that has listed the job is the one in a stage of its own. -/
theorem Underway.holder (h : Underway index id op w₀ tr w t cfg) (hi : (t i).isAway = false) :
    ∃ r, (∀ now, encodes cfg (promotedJob cfg now r) = true) ∧ Listed id tr w t r i := by
  rcases h.phase with hu | ⟨r, k, hfit, hl⟩
  · rw [hu.stages i] at hi
    cases hi
  · by_cases hik : i = k
    · subst hik
      exact ⟨r, hfit, hl⟩
    · rw [hl.others i hik] at hi
      cases hi

omit [DecidableEq ι] in
theorem Underway.here (h : Underway index id op w₀ tr w t cfg) (k : ι) : t k ≠ .lost := by
  intro hk
  have hno : (t k).isAway = true → False := fun h => by rw [hk] at h; cases h
  rcases h.phase with hu | ⟨r, i, -, hl⟩
  · exact hno (hu.stages k)
  · by_cases hki : k = i
    · have hc := hl.carries
      rw [← hki, hk] at hc
      cases hc
    · exact hno (hl.others k hki)

/-- A step of the process that has listed the job. -/
theorem Listed.own (h : Listed id tr w t r i) {c : Call} {a : Answer c}
    (hlists : listsJob id ⟨i, c, a⟩ = false) (hcan : cancelsJob id ⟨i, c, a⟩ = false)
    (hc : Carries id (tr ++ [⟨i, c, a⟩]) w' r s) :
    Listed id (tr ++ [⟨i, c, a⟩]) w' (Function.update t i s) r i where
  lists := by
    rw [List.countP_append, h.lists, List.countP_singleton, hlists]
    rfl
  lister := by
    obtain ⟨b, hb, hby⟩ := h.lister
    exact ⟨b, List.mem_append_left _ hb, hby⟩
  others k hk := by
    rw [Function.update_of_ne hk]
    exact h.others k hk
  carries := by rwa [Function.update_self]
  cancels := early_append h.cancels fun hc => by rw [hcan] at hc; cases hc

omit [DecidableEq ι] in
theorem countP_none {p : Event ι Call Answer → Bool} (h : ∀ b ∈ tr, p b = false) : tr.countP p = 0 :=
  List.countP_eq_zero.mpr fun b hb => by rw [h b hb]; exact Bool.false_ne_true

/-- A process lists the job. -/
theorem Unlisted.list (h : Unlisted index id op w₀ tr w t) (hprom : w₀.Promotable cfg index id)
    (hdue : (w.store.due index).lookup id ≠ none) {c : Call} {a : Answer c}
    (hl : listsJob id ⟨i, c, a⟩ = true) (hf : freesJob id ⟨i, c, a⟩ = false)
    (hs : sendsJob id ⟨i, c, a⟩ = false) (hcan : cancelsJob id ⟨i, c, a⟩ = false) :
    ∃ r, (∀ now, encodes cfg (promotedJob cfg now r) = true) ∧
      Listed id (tr ++ [⟨i, c, a⟩]) w (Function.update t i .listed) r i := by
  have hmark := h.marker.resolve_right fun hn => hdue hn.1
  rw [hmark] at hdue
  obtain ⟨r, hr, hfit⟩ := hprom hdue
  rw [← hmark] at hdue
  refine ⟨r, hfit, ?_, ⟨_, List.mem_append_right _ (List.mem_singleton_self _), rfl, hl⟩,
    fun k hk => ?_, ?_, early_append (fun before b after htr hb => ?_) fun hc => ?_⟩
  · rw [List.countP_append, countP_none h.lists, List.countP_singleton, hl]
    rfl
  · rw [Function.update_of_ne hk]
    exact h.stages k
  · rw [Function.update_self]
    refine .listed ⟨(h.record.resolve_right hdue).trans hr, fun b hb => ?_, ?_⟩
    · rcases List.mem_append.mp hb with hb | hb
      · exact h.frees b hb
      · rw [List.mem_singleton.mp hb]
        exact hf
    · rw [List.countP_append, countP_none h.sends, List.countP_singleton, hs]
      rfl
  · exact absurd (h.cancels b (htr ▸ List.mem_append_right _ List.mem_cons_self) hb) hdue
  · rw [hcan] at hc
    cases hc

/-! ## Every step -/

omit [DecidableEq ι] in
/-- A call about other jobs. -/
theorem Call.leaves_quiet {c : Call} (hc : c.leaves id) (a : Answer c) :
    Quiet id ⟨i, c, a⟩ ∧ cancelsJob id ⟨i, c, a⟩ = false ∧ c.writesJob ≠ some id ∧
      (∀ j n, c ≠ .dynamo (.putDueItem j id n)) ∧ c ≠ .dynamo (.deleteDueItem index id) := by
  cases c with
  | dynamo d =>
    cases d <;> first
      | exact hc.elim
      | exact ⟨⟨rfl, rfl, rfl⟩, rfl, nofun, nofun, fun h => by cases h; exact hc rfl⟩
      | exact ⟨⟨rfl, rfl, rfl⟩, rfl, nofun, nofun, nofun⟩
      | exact ⟨⟨rfl, decide_eq_false fun h => hc h.1, rfl⟩, decide_eq_false fun h => hc h.1,
          fun h => hc (Option.some.inj h), nofun, nofun⟩
  | sqs c =>
    cases c <;> first
      | exact ⟨⟨rfl, rfl, rfl⟩, rfl, nofun, nofun, nofun⟩
      | exact ⟨⟨rfl, rfl, decide_eq_false hc⟩, rfl, nofun, nofun, nofun⟩
  | proc c => exact ⟨⟨rfl, rfl, rfl⟩, rfl, nofun, nofun, nofun⟩

omit [DecidableEq ι] in
theorem Stage.Elsewhere.stays {ρ : Rules} (hρ : ρ.faults = false) (hs : s.Elsewhere) {c : Call}
    {a : Answer c} (hc : c.leaves id) (hn : w.NamedJobs) (he : ρ.env c w a w') :
    (moving cfg index id).next s c a = s := by
  cases c with
  | dynamo d =>
    cases d with
    | getJobItem k =>
      obtain ⟨rfl, -⟩ := Rules.env_run hρ rfl he
      have hk : k ≠ id := hc
      have hread : ∀ x, w.store.jobs.lookup k = some x → s.afterRead k x = s := fun x hx =>
        if_pos (hn k x hx)
      simp only [Store.run]
      cases hx : w.store.jobs.lookup k with
      | none => cases hs <;> first | rfl | exact if_neg hk
      | some x =>
        cases hs with
        | listed =>
          refine (congrArg (Stage.afterRead · k x) (if_neg hk)).trans (hread x hx)
        | _ => exact hread x hx
    | _ => first | exact hc.elim | (cases hs <;> rfl)
  | sqs c => cases hs <;> rfl
  | proc c => cases hs <;> rfl

/-- What one step leaves. -/
structure Steps (index : DueIndex) (id : String) (op : ι → Mover) (w₀ : World)
    (tr : List (Event ι Call Answer)) (w : World) (t : ι → Stage) (cfg : Config) (i : ι)
    (s : Stage) (w' : World) (e : Event ι Call Answer) : Prop where
  phase : Unlisted index id op w₀ (tr ++ [e]) w' (Function.update t i s) ∨
    ∃ r k, (∀ now, encodes cfg (promotedJob cfg now r) = true) ∧
      Listed id (tr ++ [e]) w' (Function.update t i s) r k
  marker : (w'.store.due index).lookup id = (w.store.due index).lookup id ∨
    (w'.store.due index).lookup id = none
  kinds : s = .cancelling ∨ s = .cleared → t i = .cancelling ∨ t i = .cleared
  cleared : s = .cleared → (w'.store.due index).lookup id = none

theorem Underway.of_steps {ρ : Rules} (h : Underway index id op w₀ tr w t cfg) {c : Call} {a : Answer c}
    (he : ρ.env c w a w') (hs : Steps index id op w₀ tr w t cfg i s w' ⟨i, c, a⟩) :
    Underway index id op w₀ (tr ++ [⟨i, c, a⟩]) w' (Function.update t i s) cfg where
  named := Rules.env_named he h.named
  kinds k hk := by
    by_cases hki : k = i
    · subst hki
      rw [Function.update_self] at hk
      exact h.kinds k (hs.kinds hk)
    · rw [Function.update_of_ne hki] at hk
      exact h.kinds k hk
  cleared k hk := by
    by_cases hki : k = i
    · subst hki
      rw [Function.update_self] at hk
      exact hs.cleared hk
    · rw [Function.update_of_ne hki] at hk
      rcases hs.marker with hm | hm
      · rw [hm]
        exact h.cleared k hk
      · exact hm
  phase := hs.phase

section
variable {ρ : Rules} {c : Call} {a : Answer c} (hρ : ρ.faults = false)
  (h : Underway index id op w₀ tr w t cfg) (he : ρ.env c w a w')
include hρ h he

/-- A process that handles another job. -/
theorem Underway.elsewhere (hs : (t i).Elsewhere) (hc : c.leaves id)
    (hok : MovesApart id tr w ⟨i, c, a⟩) :
    Steps index id op w₀ tr w t cfg i ((moving cfg index id).next (t i) c a) w' ⟨i, c, a⟩ := by
  obtain ⟨hq, hcan, hw, hput, hdel⟩ := Call.leaves_quiet (i := i) hc a
  have hrec := Rules.env_job hw he
  have hmark := Rules.env_marker hput hdel he
  rw [hs.stays hρ hc h.named he]
  refine ⟨?_, .inl hmark, fun hk => hk, fun hk => by rw [hk] at hs; cases hs⟩
  cases haway : (t i).isAway with
  | true =>
    exact h.aside hok haway haway hq (fun hc => by rw [hcan] at hc; cases hc) (.inl hrec) (.inl hmark)
  | false =>
    obtain ⟨r, hfit, hl⟩ := h.holder haway
    exact .inr ⟨r, i, hfit, hl.own hq.lists hcan (hl.carries.append hq (.inl hrec))⟩

omit hρ in
/-- A promoter reads a due list. -/
theorem Underway.list {n : Int} {ids : List String} (hprom : w₀.Promotable cfg index id)
    (hi : t i = .away) (hw : w' = w) (hpage : w.store.isDuePage index n ids = true)
    (hl : listsJob id ⟨i, c, a⟩ = decide (id ∈ ids)) (hq : freesJob id ⟨i, c, a⟩ = false)
    (hsend : sendsJob id ⟨i, c, a⟩ = false) (hcan : cancelsJob id ⟨i, c, a⟩ = false)
    (hok : MovesApart id tr w ⟨i, c, a⟩) :
    Steps index id op w₀ tr w t cfg i (.ofList id ids) w' ⟨i, c, a⟩ := by
  subst hw
  rw [Store.isDuePage, Bool.and_eq_true, decide_eq_true_eq, List.all_eq_true] at hpage
  rw [Stage.ofList, if_pos hpage.1]
  split
  · rename_i hmem
    rw [decide_eq_true hmem] at hl
    refine ⟨?_, .inl rfl, (by rintro (h | h) <;> cases h), (by intro h; cases h)⟩
    have hdue : (w'.store.due index).lookup id ≠ none := fun hnone => by
      have hd := hpage.2 id hmem
      rw [Store.isDue, hnone] at hd
      cases hd
    rcases h.phase with hu | ⟨r, k, -, hk⟩
    · obtain ⟨r, hfit, hl⟩ := hu.list (i := i) hprom hdue hl hq hsend hcan
      exact .inr ⟨r, i, hfit, hl⟩
    · obtain ⟨b, hb, -, hlb⟩ := hk.lister
      rw [hok.lists hl b hb] at hlb
      cases hlb
  · rename_i hmem
    rw [decide_eq_false hmem] at hl
    refine ⟨?_, .inl rfl, (by rintro (h | h) <;> cases h), (by intro h; cases h)⟩
    exact h.aside hok (by rw [hi]; rfl) rfl ⟨hl, hq, hsend⟩
      (fun hc => by rw [hcan] at hc; cases hc) (.inl rfl) (.inl rfl)

/-- The process that has listed the job goes on with it. -/
theorem Underway.proceed (haway : (t i).isAway = false) (hlists : listsJob id ⟨i, c, a⟩ = false)
    (hcan : cancelsJob id ⟨i, c, a⟩ = false)
    (hput : ∀ j n, c ≠ .dynamo (.putDueItem j id n))
    (hcarry : ∀ r, (∀ now, encodes cfg (promotedJob cfg now r) = true) → Carries id tr w r (t i) →
      Carries id (tr ++ [⟨i, c, a⟩]) w' r s) :
    Steps index id op w₀ tr w t cfg i s w' ⟨i, c, a⟩ := by
  obtain ⟨r, hfit, hl⟩ := h.holder haway
  have hc := hcarry r hfit hl.carries
  have hs := hc.not_away
  refine ⟨.inr ⟨r, i, hfit, hl.own hlists hcan hc⟩, ?_, fun hk => ?_, fun hk => ?_⟩
  · by_cases hdel : c = .dynamo (.deleteDueItem index id)
    · subst hdel
      exact .inr (Rules.env_unmark hρ he)
    · exact .inl (Rules.env_marker hput hdel he)
  · rcases hk with hk | hk <;> rw [hk] at hs <;> cases hs
  · rw [hk] at hs
    cases hs

/-- The promoter reads the job. -/
theorem Underway.load (hi : t i = .listed) (hc : c = .dynamo (.getJobItem id)) :
    Steps index id op w₀ tr w t cfg i ((moving cfg index id).next (t i) c a) w' ⟨i, c, a⟩ := by
  subst hc
  obtain ⟨rfl, rfl⟩ := Rules.env_run hρ rfl he
  obtain ⟨r, -, hl⟩ := h.holder (by rw [hi]; rfl)
  have hcarry := hl.carries
  rw [hi] at hcarry
  obtain ⟨hw⟩ := hcarry
  have hnext : (moving cfg index id).next (t i) (.dynamo (.getJobItem id))
      (.ok (w.store.jobs.lookup id)) = .loaded r := by
    rw [hi, hw.record]
    refine (congrArg (Stage.afterRead · id r) (if_pos rfl)).trans (if_pos ?_)
    exact h.named id r hw.record
  refine h.proceed hρ he (by rw [hi]; rfl) rfl rfl nofun fun x _ hx => ?_
  rw [hi] at hx
  obtain ⟨hx⟩ := hx
  obtain rfl := Option.some.inj (hw.record.symm.trans hx.record)
  simp only [Store.run]
  rw [hnext]
  exact .loaded (hx.append ⟨rfl, rfl, rfl⟩ rfl)

/-- It removes the marker. -/
theorem Underway.unmark {x : JobRecord} (hi : t i = .loaded x)
    (hc : c = .dynamo (.deleteDueItem index id)) :
    Steps index id op w₀ tr w t cfg i ((moving cfg index id).next (t i) c a) w' ⟨i, c, a⟩ := by
  subst hc
  obtain ⟨rfl, rfl⟩ := Rules.env_run hρ rfl he
  refine h.proceed hρ he (by rw [hi]; rfl) rfl rfl nofun fun r _ hr => ?_
  rw [hi] at hr ⊢
  obtain _ | ⟨hr⟩ := hr
  exact .unmarked (hr.append ⟨rfl, rfl, rfl⟩ rfl)

/-- It reads the clock. -/
theorem Underway.clock {x : JobRecord} (hi : t i = .unmarked x) (hc : c = .proc .now) :
    Steps index id op w₀ tr w t cfg i ((moving cfg index id).next (t i) c a) w' ⟨i, c, a⟩ := by
  subst hc
  have hstore := Rules.env_proc_store he
  refine h.proceed hρ he (by rw [hi]; rfl) rfl rfl nofun fun r hfit hr => ?_
  rw [hi] at hr ⊢
  obtain _ | _ | ⟨hr⟩ := hr
  rw [show (moving cfg index id).next (.unmarked x) (.proc .now) a = .clocked x a from
    if_pos (hfit a)]
  exact .clocked _ (hr.append ⟨rfl, rfl, rfl⟩ (by rw [hstore]))

/-- It writes the job available. -/
theorem Underway.free {x : JobRecord} {now : Time} (hi : t i = .clocked x now)
    (hc : c = .dynamo (.getJobItem id) ∨
      ∃ us sk pk, c = .dynamo (.updateJobItem id .available us sk pk)) :
    Steps index id op w₀ tr w t cfg i ((moving cfg index id).next (t i) c a) w' ⟨i, c, a⟩ := by
  rcases hc with rfl | ⟨us, sk, pk, rfl⟩
  · obtain ⟨rfl, rfl⟩ := Rules.env_run hρ rfl he
    refine h.proceed hρ he (by rw [hi]; rfl) rfl rfl (fun _ _ h => by cases h) fun r _ hr => ?_
    rw [hi] at hr ⊢
    obtain _ | _ | _ | ⟨_, hr⟩ := hr
    simp only [Store.run, hr.record]
    exact .clocked _ (hr.append ⟨rfl, rfl, rfl⟩ rfl)
  · obtain ⟨rfl, rfl⟩ := Rules.env_run hρ rfl he
    have hcan : cancelsJob id (⟨i, .dynamo (.updateJobItem id .available us sk pk), .ok ()⟩ :
        Event ι Call Answer) = false := decide_eq_false fun h => by cases h.2
    refine h.proceed hρ he (by rw [hi]; rfl) rfl hcan (fun _ _ h => by cases h) fun r _ hr => ?_
    rw [hi] at hr ⊢
    obtain _ | _ | _ | ⟨_, hr⟩ := hr
    refine .freed _ ⟨⟨_, List.mem_append_right _ (List.mem_singleton_self _), ?_⟩, ?_⟩
    · exact decide_eq_true ⟨rfl, rfl⟩
    · rw [List.countP_append, hr.sends]
      rfl

/-- It sends the job. -/
theorem Underway.send {x : JobRecord} {now : Time} (hi : t i = .freed x now)
    (ha : (moving cfg index id).allow (.freed x now) c) :
    Steps index id op w₀ tr w t cfg i ((moving cfg index id).next (t i) c a) w' ⟨i, c, a⟩ := by
  have haway : (t i).isAway = false := by rw [hi]; rfl
  have hopen : c.opensQueue = true → (moving cfg index id).next (.freed x now) c a = .freed x now →
      Steps index id op w₀ tr w t cfg i ((moving cfg index id).next (t i) c a) w' ⟨i, c, a⟩ := by
    intro hc hnext
    have hleave : c.leaves id := Call.leaves_of_opensQueue hc
    obtain ⟨hq, hcan, -, hput, -⟩ := @Call.leaves_quiet _ index id i c hleave a
    refine h.proceed hρ he haway hq.lists hcan hput fun r _ hr => ?_
    rw [hi, hnext]
    rw [hi] at hr
    obtain _ | _ | _ | _ | ⟨_, hr⟩ := hr
    exact .freed _ (hr.append hq.sends)
  cases c with
  | dynamo d => cases d <;> cases ha
  | proc c => exact hopen ha rfl
  | sqs c =>
    obtain ⟨b, rfl⟩ := Rules.env_sqs_ok hρ he
    cases c with
    | sendMessage url m =>
      refine h.proceed hρ he haway rfl rfl nofun fun r _ hr => ?_
      rw [hi] at hr ⊢
      obtain _ | _ | _ | _ | ⟨_, hr⟩ := hr
      obtain ⟨f, hf, hfree⟩ := hr.frees
      refine .sent ⟨⟨f, List.mem_append_left _ hf, hfree⟩, ?_⟩
      have hsends : sendsJob id (⟨i, .sqs (.sendMessage url m), .ok b⟩ : Event ι Call Answer) = true :=
        decide_eq_true ha
      rw [List.countP_append, hr.sends, List.countP_singleton, hsends]
      rfl
    | createQueue name => exact hopen ha rfl
    | _ => cases ha

/-- A Cancel of the job, before its write. -/
theorem Underway.settle (hi : t i = .cancelling ∨ t i = .cleared)
    (hc : c.settles id = true ∨ ∃ j, c = .dynamo (.deleteDueItem j id))
    (hok : MovesApart id tr w ⟨i, c, a⟩) :
    Steps index id op w₀ tr w t cfg i ((moving cfg index id).next (t i) c a) w' ⟨i, c, a⟩ := by
  have haway : (t i).isAway = true := by rcases hi with h | h <;> rw [h] <;> rfl
  rcases hc with hc | ⟨j, rfl⟩
  · have hfacts : Quiet id (⟨i, c, a⟩ : Event ι Call Answer) ∧
        cancelsJob id (⟨i, c, a⟩ : Event ι Call Answer) = false ∧ c.writesJob ≠ some id ∧
        (∀ j n, c ≠ .dynamo (.putDueItem j id n)) ∧ c ≠ .dynamo (.deleteDueItem index id) ∧
        (moving cfg index id).next (t i) c a = t i := by
      rcases hi with hi | hi <;> rw [hi]
      all_goals
        cases c with
        | dynamo d => cases d <;> first
          | cases hc
          | exact ⟨⟨rfl, rfl, rfl⟩, rfl, nofun, nofun, nofun, rfl⟩
        | sqs c => cases c <;> first
          | (cases hc; done)
          | exact ⟨⟨rfl, rfl, rfl⟩, rfl, nofun, nofun, nofun, rfl⟩
        | proc c => exact ⟨⟨rfl, rfl, rfl⟩, rfl, nofun, nofun, nofun, rfl⟩
    obtain ⟨hq, hcan, hw, hput, hdel, hnext⟩ := hfacts
    have hmark := Rules.env_marker hput hdel he
    rw [hnext]
    refine ⟨h.aside hok haway haway hq (fun hc => by rw [hcan] at hc; cases hc)
      (.inl (Rules.env_job hw he)) (.inl hmark), .inl hmark, fun hk => hk, fun hk => ?_⟩
    rw [hmark]
    exact h.cleared i hk
  · have hrec : w'.store.jobs.lookup id = w.store.jobs.lookup id :=
      Rules.env_job (fun hd => by cases hd) he
    by_cases hj : j = index
    · subst hj
      have hgone := Rules.env_unmark hρ he
      have hnext : (moving cfg j id).next (t i) (.dynamo (.deleteDueItem j id)) a = .cleared := by
        obtain ⟨rfl, -⟩ := Rules.env_run hρ rfl he
        rcases hi with hi | hi <;> rw [hi]
        · exact if_pos rfl
        · rfl
      rw [hnext]
      exact ⟨h.aside hok haway rfl ⟨rfl, rfl, rfl⟩ (fun hc => by cases hc) (.inl hrec)
        (.inr ⟨hgone, h.kinds i hi, rfl⟩), .inr hgone, fun _ => hi, fun _ => hgone⟩
    · have hmark : (w'.store.due index).lookup id = (w.store.due index).lookup id :=
        Rules.env_marker (fun _ _ hd => by cases hd) (fun hd => by cases hd; exact hj rfl) he
      have hnext : (moving cfg index id).next (t i) (.dynamo (.deleteDueItem j id)) a = t i := by
        obtain ⟨rfl, -⟩ := Rules.env_run hρ rfl he
        rcases hi with hi | hi <;> rw [hi]
        · exact if_neg hj
        · rfl
      rw [hnext]
      refine ⟨h.aside hok haway haway ⟨rfl, rfl, rfl⟩ (fun hc => by cases hc) (.inl hrec)
        (.inl hmark), .inl hmark, fun hk => hk, fun hk => ?_⟩
      rw [hmark]
      exact h.cleared i hk

omit hρ in
/-- Its write. -/
theorem Underway.cancel (hi : t i = .cleared)
    (hc : ∃ us sk pk, c = .dynamo (.updateJobItem id .cancelled us sk pk))
    (hok : MovesApart id tr w ⟨i, c, a⟩) :
    Steps index id op w₀ tr w t cfg i ((moving cfg index id).next (t i) c a) w' ⟨i, c, a⟩ := by
  obtain ⟨us, sk, pk, rfl⟩ := hc
  have hmark : (w'.store.due index).lookup id = (w.store.due index).lookup id :=
    Rules.env_marker (fun _ _ hd => by cases hd) (fun hd => by cases hd) he
  rw [show (moving cfg index id).next (t i) (.dynamo (.updateJobItem id .cancelled us sk pk)) a =
    .cleared by rw [hi]; rfl]
  refine ⟨h.aside hok (by rw [hi]; rfl) rfl
    ⟨rfl, decide_eq_false fun h => (by cases h.2), rfl⟩ (fun _ => hi)
    (.inr (decide_eq_true ⟨rfl, rfl⟩)) (.inl hmark), .inl hmark, fun _ => .inr hi, fun _ => ?_⟩
  rw [hmark]
  exact h.cleared i hi

/-- **Every step** of the processes keeps what is known of a run. -/
theorem Underway.next (hprom : w₀.Promotable cfg index id)
    (ha : (moving cfg index id).allow (t i) c) (hok : MovesApart id tr w ⟨i, c, a⟩) :
    Underway index id op w₀ (tr ++ [⟨i, c, a⟩]) w'
      (Function.update t i ((moving cfg index id).next (t i) c a)) cfg := by
  refine h.of_steps he ?_
  cases hi : t i with
  | away =>
    rw [hi] at ha
    have hleave : c.leaves id → Steps index id op w₀ tr w t cfg i
        ((moving cfg index id).next .away c a) w' ⟨i, c, a⟩ := fun hc => by
      have hs := h.elsewhere hρ he (by rw [hi]; exact .away) hc hok
      rwa [hi] at hs
    cases c with
    | dynamo d =>
      cases d with
      | queryDue j n =>
        obtain rfl : j = index := ha
        obtain ⟨ids, rfl, hpage, hw⟩ := Rules.env_queryDue hρ he
        exact h.list he hprom hi hw hpage rfl rfl rfl rfl hok
      | scanDue j n =>
        obtain rfl : j = index := ha
        obtain ⟨ids, rfl, hpage, hw⟩ := Rules.env_scanDue hρ he
        exact h.list he hprom hi hw hpage rfl rfl rfl rfl hok
      | _ => exact hleave ha
    | sqs c => exact hleave ha
    | proc c => exact hleave ha
  | listed =>
    rw [hi] at ha
    rw [← hi]
    rcases ha with hc | hc
    · exact h.elsewhere hρ he (by rw [hi]; exact .listed) hc hok
    · exact h.load hρ he hi hc
  | loaded x =>
    rw [hi] at ha
    rw [← hi]
    exact h.unmark hρ he hi ha
  | unmarked x =>
    rw [hi] at ha
    rw [← hi]
    exact h.clock hρ he hi ha
  | clocked x now =>
    rw [hi] at ha
    rw [← hi]
    exact h.free hρ he hi ha
  | freed x now =>
    rw [hi] at ha
    rw [← hi]
    exact h.send hρ he hi ha
  | sent =>
    rw [hi] at ha
    rw [← hi]
    exact h.elsewhere hρ he (by rw [hi]; exact .sent) ha hok
  | cancelling =>
    rw [hi] at ha
    rw [← hi]
    exact h.settle hρ he (.inl hi) ha hok
  | cleared =>
    rw [hi] at ha
    rw [← hi]
    rcases ha with hc | hc | hc
    · exact h.settle hρ he (.inr hi) (.inl hc) hok
    · exact h.settle hρ he (.inr hi) (.inr hc) hok
    · exact h.cancel he hi hc hok
  | lost => exact absurd hi (h.here i)

end

end

/-! ## Every run -/

/-- What is claimed of a job in the run `tr` from `w` to `P`: it is listed once
and sent once at most, once it is listed and the processes are done it has
been sent, and cancelled before it is made available it never is. A job that
is not listed waits on, unless a Cancel has removed its marker. -/
structure SentOnce (index : DueIndex) (id : String) (op : ι → Mover)
    (tr : List (Event ι Call Answer)) (w : World) (P : Pool ι World Call Answer Unit) : Prop where
  lists : tr.countP (listsJob id) ≤ 1
  sends : tr.countP (sendsJob id) ≤ tr.countP (listsJob id)
  complete : P.Finished → tr.countP (sendsJob id) = tr.countP (listsJob id)
  cancelled : ∀ before e after, tr = before ++ e :: after → cancelsJob id e = true →
    (∀ f ∈ before, freesJob id f = false) → ∀ f ∈ after, freesJob id f = false
  waits : tr.countP (listsJob id) = 0 →
    (P.world.store.due index).lookup id = (w.store.due index).lookup id ∨
      ∃ e ∈ tr, op e.thread = .cancel id ∧ e.call = .dynamo (.deleteDueItem index id)

section
variable [DecidableEq ι] {cfg : Config} {index : DueIndex} {id : String} {op : ι → Mover}
  {tr : List (Event ι Call Answer)} {w : World} {t : ι → Stage}
  {P : Pool ι World Call Answer Unit}

omit [DecidableEq ι] in
theorem Underway.sentOnce (h : Underway index id op w tr P.world t cfg)
    (hset : P.Finished → ∀ i, (t i).isSettled = true) : SentOnce index id op tr w P := by
  rcases h.phase with hu | ⟨r, i, -, hl⟩
  · have hlists := countP_none hu.lists
    have hsends := countP_none hu.sends
    refine ⟨by omega, by omega, fun _ => hsends.trans hlists.symm, fun before e after htr _ _ f hf => ?_,
      fun _ => hu.marker.imp (fun h => h) fun hm => hm.2⟩
    exact hu.frees f (htr ▸ List.mem_append_right _ (List.mem_cons_of_mem _ hf))
  · have hcarry := hl.carries
    have hsends : tr.countP (sendsJob id) ≤ 1 := hcarry.sends_le
    refine ⟨le_of_eq hl.lists, by rw [hl.lists]; exact hsends, fun hfin => ?_,
      fun before e after htr he hno => ?_, fun hnone => ?_⟩
    · have hdone := hset hfin i
      rw [hl.lists]
      generalize t i = s at hcarry hdone
      cases hcarry with
      | sent hf => exact hf.sends
      | _ => cases hdone
    · obtain ⟨f, hf, hfree⟩ := hl.cancels before e after htr he
      rw [hno f hf] at hfree
      cases hfree
    · rw [hl.lists] at hnone
      cases hnone

/-- **Promoters next to each other.** In every run in which no process lists
the job while another has it on its list, and no Cancel writes it while a
process is about to free it, the job is sent once. -/
theorem promoters_send_once {ρ : Rules} {P' : Pool ι World Call Answer Unit}
    (hρ : ρ.faults = false) (hn : P.world.NamedJobs) (hprom : P.world.Promotable cfg index id)
    (hP : ∀ i, P.thread i = (op i).prog cfg index) (hr : Pool.Run ρ.env (MovesApart id) P tr P') :
    SentOnce index id op tr P.world P' := by
  have hconf : ∀ i, (moving cfg index id).Conforms (P.thread i) ((op i).stage id) := fun i => by
    rw [hP i]
    exact moving_prog (op i)
  have hstage : ∀ i, ((op i).stage id).isAway = true := fun i => by
    cases op i with
    | promote => rfl
    | cancel k => rw [Mover.stage]; split <;> rfl
  have hkinds : ∀ i, (op i).stage id = .cancelling ∨ (op i).stage id = .cleared →
      op i = .cancel id := fun i hi => by
    cases ho : op i with
    | promote => rw [ho] at hi; rcases hi with hi | hi <;> cases hi
    | cancel k =>
      rw [ho, Mover.stage] at hi
      split at hi
      · rename_i hk
        rw [hk]
      · rcases hi with hi | hi <;> cases hi
  have hcleared : ∀ i, (op i).stage id ≠ .cleared := fun i hi => by
    cases ho : op i with
    | promote => rw [ho] at hi; cases hi
    | cancel k => rw [ho, Mover.stage] at hi; split at hi <;> cases hi
  have hnil : ∀ {Q : Event ι Call Answer → Prop}, ∀ e ∈ ([] : List (Event ι Call Answer)), Q e :=
    fun _ he => absurd he List.not_mem_nil
  have h0 : Underway index id op P.world [] P.world (fun i => (op i).stage id) cfg :=
    ⟨hn, hkinds, fun i hi => absurd hi (hcleared i), .inl ⟨hnil, hnil, hnil, hstage, .inl rfl,
      .inl rfl, hnil⟩⟩
  obtain ⟨hI, hc⟩ := hr.invariant (m := fun _ => moving cfg index id) (s := fun i => (op i).stage id)
    (fun tr w t => Underway index id op P.world tr w t cfg) hconf h0
    fun _ _ _ _ _ _ _ hI ha he hok => hI.next hρ he hprom ha hok
  refine hI.sentOnce fun hfin i => ?_
  obtain ⟨a, ha⟩ := hfin i
  exact Pool.accepted (hc i) ha

end

/-! ## Two promoters -/

instance [DecidableEq ι] (id : String) (tr : List (Event ι Call Answer)) (w : World)
    (e : Event ι Call Answer) : Decidable (MovesApart id tr w e) :=
  decidable_of_iff ((listsJob id e = true → ∀ b ∈ tr, listsJob id b = false) ∧
      (cancelsJob id e = true → ∀ b ∈ tr, listsJob id b = true →
        ∃ f ∈ tr, f.thread = b.thread ∧ freesJob id f = true))
    ⟨fun h => ⟨h.1, h.2⟩, fun h => ⟨h.lists, h.cancels⟩⟩

def twoPromoters : Bool → Mover := fun _ => .promote

def dueJobPool : Pool Bool World Call Answer Unit :=
  ⟨dueWorld, fun i => (twoPromoters i).prog demo .scheduled⟩

theorem dueWorld_promotable : dueWorld.Promotable demo .scheduled "j1" :=
  fun _ => ⟨dueRecord, rfl, fun _ => rfl⟩

/-- A promoter lists the job, and what it then does with it: up to the URL of
its queue, the opening of the queue and the message. -/
def listsIt : List Choice := [.tick 0, .page ["j1"]]
def freesIt : List Choice := [.ok, .ok, .tick 0, .ok, .ok, .ok]
def opensAndSends : List Choice := [.ok, .ok, .ok, .ok]
def sendsIt : List Choice := [.ok]

/-- One promoter is done before the other lists what is due. -/
def oneAfterOther : List (Bool × Choice) :=
  (listsIt ++ freesIt ++ opensAndSends).map (true, ·) ++ [(false, .tick 0), (false, .page [])]

/-- The job is sent once. -/
theorem promoters_send_once_after : ∃ tr P', Pool.Finished P' ∧
    SentOnce .scheduled "j1" twoPromoters tr dueWorld P' ∧ tr.countP (sendsJob "j1") = 1 := by
  have hrun : ∃ out, Pool.script (Rules.act {}) (MovesApart "j1") [] oneAfterOther dueJobPool =
      some out ∧ (∀ i, out.2.thread i = .pure ()) ∧ out.1.countP (listsJob "j1") = 1 :=
    ⟨_, rfl, fun i => by cases i <;> rfl, rfl⟩
  obtain ⟨⟨tr, P'⟩, hscript, hpure, hlists⟩ := hrun
  have hr : Pool.Run (Rules.env {}) (MovesApart "j1") dueJobPool tr P' :=
    Pool.script_run oneAfterOther .start hscript
  have honce := @promoters_send_once Bool _ demo .scheduled "j1" twoPromoters tr dueJobPool {} P' rfl
    dueWorld_named dueWorld_promotable (fun _ => rfl) hr
  have hfin : P'.Finished := fun i => ⟨(), hpure i⟩
  exact ⟨tr, P', hfin, honce, (honce.complete hfin).trans hlists⟩

/-- Both promoters list the job before one of them removes its marker. -/
def bothList : List (Bool × Choice) :=
  listsIt.map (true, ·) ++ listsIt.map (false, ·) ++ (freesIt ++ opensAndSends).map (true, ·) ++
    (freesIt ++ sendsIt).map (false, ·)

/-- Two promoters may send one job twice. -/
theorem both_promoters_send : ¬ ∀ (cfg : Config) (index : DueIndex) (ρ : Rules) (id : String)
    (op : Bool → Mover) (tr : List (Event Bool Call Answer)) (P P' : Pool Bool World Call Answer Unit),
    ρ.faults = false → P.world.NamedJobs → P.world.Promotable cfg index id →
    (∀ i, P.thread i = (op i).prog cfg index) → Pool.Run ρ.env Pool.anyStep P tr P' →
    P'.Finished → P.world.store.isDue index P.world.clock.unixMilli id = true →
    tr.countP (sendsJob id) = 1 ∧
      ∀ before e after, tr = before ++ e :: after → cancelsJob id e = true →
        (∀ f ∈ before, freesJob id f = false) → ∀ f ∈ after, freesJob id f = false := by
  intro hall
  have hrun : ∃ out, Pool.script (Rules.act {}) Pool.anyStep [] bothList dueJobPool = some out ∧
      (∀ i, out.2.thread i = .pure ()) ∧ out.1.countP (sendsJob "j1") = 2 :=
    ⟨_, rfl, fun i => by cases i <;> rfl, rfl⟩
  obtain ⟨⟨tr, P'⟩, hscript, hpure, hsends⟩ := hrun
  have honce := hall demo .scheduled {} "j1" twoPromoters tr dueJobPool P' rfl dueWorld_named
    dueWorld_promotable (fun _ => rfl) (Pool.script_run bothList .start hscript)
    (fun i => ⟨(), hpure i⟩) (by decide)
  rw [hsends] at honce
  cases honce.1

end OjsSqs
