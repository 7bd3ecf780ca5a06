import OjsSqs.Atomic.Steps
import OjsSqs.Racing.Footprint

/-! # Pushes with one unique key

Any number of Pushes of one fingerprint run next to each other, and calls may
fail. The check for the key's holder decides nothing: it reads without a lock.
What decides is the conditional put of the key, which every path of a Push
makes before it writes a record. -/
namespace OjsSqs
open Calls

/-- Where a Push stands with the key: it has not got it, it has got it for the
job `id`, whose record may be stored, or it was refused. -/
inductive Claim where
  | trying
  | owner (id : String) (stored : Bool)
  | lost

/-- The job the key was taken for. -/
def Claim.id? : Claim → Option String
  | .owner id _ => some id
  | _ => none

/-- Follows a Push: it writes no record before it has the key, and then only
the record of its own job. -/
def claiming (fp : String) : Monitor Claim Call Answer (Except Error Job) where
  allow
    | .trying, c => c.writesJob = none ∧ ∀ f, c.takesKey = some f → f = fp
    | .owner id _, c => c.stores id
    | .lost, _ => False
  next
    | .trying, .dynamo (.putUniqueItem _ id _), .ok _ => .owner id false
    | .trying, .dynamo (.putUniqueItem _ _ _), .error _ => .lost
    | .owner id b, c, r => .owner id ((storing id).next b c r)
    | s, _, _ => s
  accept
    | a, .owner id b => (storing id).accept a b
    | a, _ => ∀ j, a = .ok j → j.isExisting = true

/-- A call that neither writes a record nor takes a key. -/
def Call.isReading (c : Call) : Prop := c.writesJob = none ∧ c.takesKey = none

theorem Call.isReading_of_isAside {c : Call} (h : c.isAside) : c.isReading := by
  cases c with
  | dynamo c => cases h
  | sqs c => exact ⟨rfl, rfl⟩
  | proc c => exact ⟨rfl, rfl⟩

theorem claiming_next_reading {fp : String} {c : Call} (hc : c.isReading) (r : Answer c) :
    (claiming fp).next .trying c r = .trying := by
  cases c with
  | dynamo d => cases d <;> first | rfl | cases hc.2
  | sqs c => rfl
  | proc c => rfl

/-! ## A Push conforms -/

section
variable (cfg : Config) {fp : String}

theorem claiming_reading {β : Type} {p : M β} {Q : β → Claim → Prop} (hp : p.Only Call.isReading)
    (hQ : ∀ a, Q a .trying) : wp (claiming fp).effect p Q .trying :=
  Monitor.wp_only hp
    (fun _ hc => ⟨⟨hc.1, fun f hf => by rw [hc.2] at hf; cases hf⟩, claiming_next_reading hc⟩) hQ

theorem claiming_getJob {id : String} {Q : Except Error JobRecord → Claim → Prop}
    (hQ : ∀ a, Q a .trying) : wp (claiming fp).effect (getJob id) Q .trying :=
  claiming_reading (only_getJob ⟨rfl, rfl⟩) hQ

/-- Looking for the holder only reads, and what it gives back is marked as
existing. -/
theorem claiming_findExisting {policy : UniquePolicy} (hc : conflictOf policy ≠ "replace")
    {Q : Except Error (Option Job) → Claim → Prop}
    (hQ : ∀ a, (∀ j, a = .ok (some j) → j.isExisting = true) → Q a .trying) :
    wp (claiming fp).effect (findExisting cfg policy fp) Q .trying := by
  have hnone : Q (.ok none) .trying := hQ _ fun _ h => by cases h
  rw [findExisting, getUniqueKey, wp_bind, wp_bind]
  refine claiming_reading (Prog.only_perform ⟨rfl, rfl⟩) fun a => ?_
  split
  · exact hnone
  · exact hnone
  · simp only [wp_pure, wp_ite]
    split
    · exact hnone
    · rw [resolveConflict, wp_bind]
      refine claiming_getJob fun a => ?_
      split
      · exact hnone
      · simp only [wp_ite, wp_pure, if_neg hc]
        split
        · split
          · exact hQ _ fun _ h => by cases h
          · split
            · exact hQ _ fun _ h => by cases h; rfl
            · exact hnone
        · exact hnone

/-- The conditional put decides. -/
theorem claiming_claimUniqueKey {policy : UniquePolicy} {id : String}
    {Q : Except Error Unit → Claim → Prop} (hok : Q (.ok ()) (.owner id false))
    (herr : ∀ e, Q (.error e) .lost) :
    wp (claiming fp).effect (claimUniqueKey cfg policy fp id) Q .trying := by
  rw [claimUniqueKey, setUniqueKey, wp_bind, wp_bind]
  refine claiming_reading (only_timeNow.mono fun _ => Call.isReading_of_isAside) fun now => ?_
  rw [request, wp_bind]
  refine ⟨⟨rfl, fun f hf => (Option.some.inj hf).symm⟩, fun a => ?_⟩
  cases a with
  | ok u => exact hok
  | error e =>
    show wp (claiming fp).effect (if _ then _ else _) _ _
    rw [wp_ite]
    split <;> exact herr _

theorem claiming_push {job : Job} {policy : UniquePolicy} (hu : job.unique = some policy)
    (hc : conflictOf policy ≠ "replace") (hfp : computeFingerprint cfg policy job = fp) :
    (claiming fp).Conforms (push cfg job) .trying := by
  rw [Monitor.Conforms, push, wp_bind]
  refine claiming_reading (only_timeNow.mono fun _ => Call.isReading_of_isAside) fun now => ?_
  rw [wp_bind]
  have hid : (assignID job).Only Call.isReading := by
    rw [assignID]
    split
    · exact Prog.only_perform ⟨rfl, rfl⟩
    · exact Prog.only_pure _
  refine claiming_reading hid fun id => ?_
  simp only [hu]
  rw [wp_bind, pushUnique]
  have hfp' : computeFingerprint cfg policy
      { job with id := id, createdAt := cfg.formatTime now, attempt := 0 } = fp := hfp
  rw [hu] at hfp'
  simp only [hfp']
  rw [wp_bind]
  refine claiming_findExisting cfg hc fun a ha => ?_
  split
  · exact fun _ h => by cases h
  · exact fun j h => by cases h; exact ha _ rfl
  · rw [wp_bind]
    refine claiming_claimUniqueKey cfg ?_ fun e => ?_
    · have hnew := storing_pushNew cfg now (sortUniqueKeys policy
        { job with id := id, createdAt := cfg.formatTime now, attempt := 0 })
      simp only [wp_pure]
      exact Monitor.wp_embed (m := claiming fp) (Claim.owner id) (fun b c h => ⟨h, fun r => rfl⟩)
        hnew fun a b h => h
    · exact fun _ h => by cases h

end

/-! ## One winner -/

section
variable {ι : Type} [DecidableEq ι] {fp : String} {ρ : Rules} {w w' : World}
  {tr : List (Event ι Call Answer)} {t : ι → Claim} {i : ι} {c : Call} {r : Answer c}

/-- What the Pushes keep: the key names the job of the one that owns it, and
only that one has written. -/
structure Claimed (fp : String) (tr : List (Event ι Call Answer)) (w : World) (t : ι → Claim) :
    Prop where
  named : ∀ i id, (t i).id? = some id →
    ∃ item, w.store.uniqueKeys.lookup fp = some item ∧ item.jobID = id
  single : ∀ i j id id', (t i).id? = some id → (t j).id? = some id' → i = j
  writers : ∀ e ∈ tr, ∀ id, e.call.writesJob = some id → (t e.thread).id? = some id
  stored : ∀ i id, t i = .owner id true → (w.store.jobs.lookup id).isSome ∧
    ∃ e ∈ tr, e.thread = i ∧ e.call.writesJob = some id

/-- A call that leaves the key alone and changes no claim's job. -/
theorem Claimed.step (h : Claimed fp tr w t) {s : Claim} (hs : s.id? = (t i).id?)
    (hkey : w'.store.uniqueKeys.lookup fp = w.store.uniqueKeys.lookup fp)
    (hw : ∀ id, c.writesJob = some id → s.id? = some id)
    (hjobs : ∀ id, (w.store.jobs.lookup id).isSome → (w'.store.jobs.lookup id).isSome)
    (hst : ∀ id, s = .owner id true → t i = .owner id true ∨
      (w'.store.jobs.lookup id).isSome ∧ c.writesJob = some id) :
    Claimed fp (tr ++ [⟨i, c, r⟩]) w' (Function.update t i s) := by
  have hid : ∀ j, (Function.update t i s j).id? = (t j).id? := fun j => by
    by_cases hj : j = i
    · rw [hj, Function.update_self, hs]
    · rw [Function.update_of_ne hj]
  refine ⟨fun j id hj => ?_, fun j k id id' hj hk => ?_, fun e he id hwr => ?_, fun j id hj => ?_⟩
  · rw [hkey]
    exact h.named j id (hid j ▸ hj)
  · exact h.single j k id id' (hid j ▸ hj) (hid k ▸ hk)
  · rw [hid]
    rcases List.mem_append.mp he with he | he
    · exact h.writers e he id hwr
    · rw [List.mem_singleton.mp he] at hwr ⊢
      exact hs ▸ hw id hwr
  · have hold : t j = .owner id true → (w'.store.jobs.lookup id).isSome ∧
        ∃ e ∈ tr ++ [⟨i, c, r⟩], e.thread = j ∧ e.call.writesJob = some id := fun hj => by
      obtain ⟨hjob, e, he, hthread, hwr⟩ := h.stored j id hj
      exact ⟨hjobs id hjob, e, List.mem_append_left _ he, hthread, hwr⟩
    by_cases hji : j = i
    · subst hji
      rw [Function.update_self] at hj
      rcases hst id hj with hj | ⟨hjob, hwr⟩
      · exact hold hj
      · exact ⟨hjob, _, List.mem_append_right _ (List.mem_singleton_self _), rfl, hwr⟩
    · rw [Function.update_of_ne hji] at hj
      exact hold hj

/-- The put of the key succeeds: there was none, so nobody owned it. -/
theorem Claimed.claim (h : Claimed fp tr w t) {id : String} {ttl : Int}
    {u : Unit} (he : ρ.env (.dynamo (.putUniqueItem fp id ttl)) w (Except.ok u : Except _ Unit) w') :
    Claimed fp (tr ++ [⟨i, .dynamo (.putUniqueItem fp id ttl), Except.ok u⟩]) w'
      (Function.update t i (.owner id false)) := by
  have hrun := Rules.env_ok rfl he
  have hfree : w.store.uniqueKeys.lookup fp = none := by
    cases hk : w.store.uniqueKeys.lookup fp with
    | none => rfl
    | some item => simp [Store.run, hk] at hrun
  have hkey : w'.store.uniqueKeys.lookup fp = some ⟨id, ttl⟩ := by
    simp only [Store.run, hfree, Prod.mk.injEq, true_and] at hrun
    rw [hrun]
    exact AList.lookup_insert _
  have hnone : ∀ j id', (t j).id? = some id' → False := fun j id' hj => by
    obtain ⟨item, hitem, -⟩ := h.named j id' hj
    rw [hfree] at hitem
    cases hitem
  have honly : ∀ j id', (Function.update t i (.owner id false) j).id? = some id' →
      j = i ∧ id' = id := fun j id' hj => by
    by_cases hji : j = i
    · rw [hji, Function.update_self] at hj
      exact ⟨hji, (Option.some.inj hj).symm⟩
    · rw [Function.update_of_ne hji] at hj
      exact (hnone j id' hj).elim
  refine ⟨fun j id' hj => ?_, fun j k id₁ id₂ hj hk => ?_, fun e he' id' hwr => ?_,
    fun j id' hj => ?_⟩
  · rw [(honly j id' hj).2]
    exact ⟨_, hkey, rfl⟩
  · rw [(honly j _ hj).1, (honly k _ hk).1]
  · rcases List.mem_append.mp he' with he' | he'
    · exact (hnone _ _ (h.writers e he' id' hwr)).elim
    · rw [List.mem_singleton.mp he'] at hwr
      cases hwr
  · have hj' := honly j id' (by rw [hj]; rfl)
    rw [hj'.1, Function.update_self] at hj
    cases hj

/-- The put of the key fails: the Push has lost. -/
theorem Claimed.lose (h : Claimed fp tr w t) (hi : t i = .trying) {id : String} {ttl : Int}
    {e : AwsError} (he : ρ.env (.dynamo (.putUniqueItem fp id ttl)) w
      (Except.error e : Except AwsError Unit) w') :
    Claimed fp (tr ++ [⟨i, .dynamo (.putUniqueItem fp id ttl), Except.error e⟩]) w'
      (Function.update t i .lost) := by
  refine h.step (by rw [hi]; rfl) ?_ (fun _ hw => by cases hw) (fun _ => Rules.env_stored he)
    fun _ h => by cases h
  obtain ⟨ch, s', -, hact, rfl⟩ := Rules.env_dynamo he
  rcases Store.act_cases hact with hr | rfl
  · cases hk : w.store.uniqueKeys.lookup fp with
    | none => simp [Store.run, hk] at hr
    | some item =>
      simp only [Store.run, hk, Prod.mk.injEq] at hr
      rw [hr.2]
      exact hk
  · rfl

/-- The owner's calls leave the key alone and write no record but its job's. -/
theorem Claimed.store (h : Claimed fp tr w t) {id : String} {b : Bool} (hi : t i = .owner id b)
    (hc : c.stores id) (he : ρ.env c w r w') :
    Claimed fp (tr ++ [⟨i, c, r⟩]) w'
      (Function.update t i (.owner id ((storing id).next b c r))) := by
  have hwr : ∀ id', c.writesJob = some id' → id' = id := fun id' hw => by
    cases c with
    | dynamo d => cases d <;> first | (cases hw; exact hc) | (cases hw; done) | cases hc
    | sqs c => cases hw
    | proc c => cases hw
  refine h.step (by rw [hi]; rfl) (Rules.env_uniqueKey (fun hk => ?_) he)
    (fun id' hw => by rw [hwr id' hw]; rfl) (fun _ => Rules.env_stored he) fun id' hs => ?_
  · cases c with
    | dynamo d => cases d <;> first | (cases hk; done) | cases hc
    | sqs c => cases hk
    | proc c => cases hk
  · obtain ⟨rfl, hb⟩ := Claim.owner.inj hs
    cases b with
    | true => exact .inl hi
    | false =>
      -- the flag is set by a put of the record that has succeeded
      cases c with
      | dynamo d =>
        cases d with
        | putJobItem x =>
          cases r with
          | error e => cases hb
          | ok u =>
            have hrun := Rules.env_ok rfl he
            simp only [Store.run, Prod.mk.injEq, true_and] at hrun
            have hx : x.id = id := hc
            refine .inr ⟨?_, congrArg some hx⟩
            rw [hrun, ← hx, AList.lookup_insert]
            rfl
        | _ => cases hb
      | sqs c => cases hb
      | proc c => cases hb

theorem Claimed.next (h : Claimed fp tr w t) (hc : (claiming fp).allow (t i) c)
    (he : ρ.env c w r w') :
    Claimed fp (tr ++ [⟨i, c, r⟩]) w' (Monitor.track (fun _ => claiming fp) t ⟨i, c, r⟩) := by
  rw [Monitor.track]
  simp only
  cases hi : t i with
  | owner id b =>
    rw [hi] at hc
    exact h.store hi hc he
  | lost =>
    rw [hi] at hc
    exact hc.elim
  | trying =>
    rw [hi] at hc
    obtain ⟨hwr, hkey⟩ := hc
    by_cases hk : c.takesKey = none
    · rw [claiming_next_reading ⟨hwr, hk⟩]
      refine h.step (by rw [hi]) (Rules.env_uniqueKey (fun h => by rw [hk] at h; cases h) he)
        (fun _ hw => ?_) (fun _ => Rules.env_stored he) fun _ hs => by cases hs
      rw [hwr] at hw
      cases hw
    · cases c with
      | dynamo d =>
        cases d with
        | putUniqueItem f id ttl =>
          obtain rfl := hkey f rfl
          cases r with
          | ok u => exact h.claim he
          | error e => exact h.lose hi he
        | _ => exact absurd rfl hk
      | sqs c => exact absurd rfl hk
      | proc c => exact absurd rfl hk

end

/-- At most one of the Pushes has written a record; the key names the job of
that record, and a job that is returned as new is that one. -/
structure OneWinner {ι : Type} (fp : String) (tr : List (Event ι Call Answer))
    (P : Pool ι World Call Answer (Except Error Job)) : Prop where
  writer : ∀ e ∈ tr, ∀ e' ∈ tr, ∀ id id', e.call.writesJob = some id →
    e'.call.writesJob = some id' → e.thread = e'.thread ∧ id = id'
  named : ∀ e ∈ tr, ∀ id, e.call.writesJob = some id →
    ∃ item, P.world.store.uniqueKeys.lookup fp = some item ∧ item.jobID = id
  creator : ∀ i j, P.Returned i (.ok j) → j.isExisting = false →
    (P.world.store.jobs.lookup j.id).isSome ∧
      ∃ e ∈ tr, e.thread = i ∧ e.call.writesJob = some j.id

/-- **One winner.** However the calls of Pushes with one unique key fall, and
whichever of them fail, one Push at most writes a record. -/
theorem pushes_have_one_winner {ι : Type} [DecidableEq ι] {cfg : Config} {ρ : Rules} {fp : String}
    {job : ι → Job} {policy : ι → UniquePolicy} {tr : List (Event ι Call Answer)}
    {P P' : Pool ι World Call Answer (Except Error Job)}
    (hjob : ∀ i, (job i).unique = some (policy i))
    (hpolicy : ∀ i, conflictOf (policy i) = "reject" ∨ conflictOf (policy i) = "ignore")
    (hfp : ∀ i, computeFingerprint cfg (policy i) (job i) = fp)
    (hP : ∀ i, P.thread i = push cfg (job i))
    (hr : Pool.Run ρ.env Pool.anyStep P tr P') : OneWinner fp tr P' := by
  have hconf : ∀ i, (claiming fp).Conforms (P.thread i) .trying := fun i => by
    rw [hP i]
    refine claiming_push cfg (hjob i) (fun h => ?_) (hfp i)
    rcases hpolicy i with hp | hp <;> rw [hp] at h <;> exact absurd h (by decide)
  have h0 : Claimed fp [] P.world fun _ : ι => Claim.trying :=
    ⟨fun _ _ h => (by cases h), fun _ _ _ _ h => (by cases h), fun _ h => (by cases h),
      fun _ _ h => (by cases h)⟩
  obtain ⟨hI, hc⟩ := hr.invariant (m := fun _ => claiming fp) (s := fun _ => .trying)
    (Claimed fp) hconf h0 fun _ _ _ _ _ _ _ hI ha he _ => hI.next ha he
  refine ⟨fun e he e' he' id id' hw hw' => ?_, fun e he id hw => hI.named _ id (hI.writers e he id hw),
    fun i j hret hnew => ?_⟩
  · have h₁ := hI.writers e he id hw
    have h₂ := hI.writers e' he' id' hw'
    have ht := hI.single _ _ _ _ h₁ h₂
    rw [ht, h₂] at h₁
    exact ⟨ht, (Option.some.inj h₁).symm⟩
  · have ha := Pool.accepted (hc i) hret
    cases hs : Monitor.states (fun _ => claiming fp) (fun _ => Claim.trying) tr i with
    | owner id b =>
      rw [hs] at ha
      obtain ⟨rfl, rfl⟩ := ha j rfl
      exact hI.stored i _ hs
    | trying | lost =>
      rw [hs] at ha
      have := ha j rfl
      rw [hnew] at this
      cases this

/-- Two clients push the same mail. -/
def mail (first : Bool) : Job :=
  { demoJob with id := if first then "a" else "b", unique := some {} }

/-- Both look for the key before either takes it. -/
def twoMails : List (Bool × Choice) :=
  [(true, .tick 0), (false, .tick 0), (true, .ok), (false, .ok), (true, .tick 0), (true, .ok),
    (false, .tick 0), (true, .ok), (false, .ok), (true, .ok), (true, .ok), (true, .ok), (true, .ok),
    (true, .ok), (true, .ok)]

/-- One of them is created and the other refused. -/
theorem pushes_have_one_winner_mails : ∃ (tr : List (Event Bool Call Answer))
    (P : Pool Bool World Call Answer (Except Error Job)), (∃ j, P.Returned true (.ok j)) ∧
      (∃ e, P.Returned false (.error e)) ∧
      OneWinner "de65bdd1a53cef6dfc733c23a9202ff3552e8cec5301889b1d9a270e825db0d7" tr P := by
  have hrun : ∃ out, Pool.script (Rules.act {}) Pool.anyStep [] twoMails
      ⟨.start 0, fun i => push demo (mail i)⟩ = some out ∧
      (∃ j, out.2.Returned true (.ok j)) ∧ ∃ e, out.2.Returned false (.error e) :=
    ⟨_, rfl, ⟨_, rfl⟩, ⟨_, rfl⟩⟩
  obtain ⟨⟨tr, P⟩, hscript, hok, herr⟩ := hrun
  have hr := Pool.script_run twoMails .start hscript
  refine ⟨tr, P, hok, herr, @pushes_have_one_winner Bool _ demo {} _ mail (fun _ => {}) tr _ P
    (fun _ => rfl) (fun _ => .inl rfl) (fun i => ?_) (fun _ => rfl) hr⟩
  cases i <;> rfl

end OjsSqs
