import OjsSqs.Cron.Outgoing
import OjsSqs.Cron.Registrations
import OjsSqs.Cron.Once

/-! # The turns of one cron

At most one run at a time is at the turn of a cron. The lock of its stored
record is the only one that can still be free: the lock of an older copy was
put before the record was written back, and the run that has the lock of the
record is at its turn until it writes it back or gives it up. -/
namespace OjsSqs
open Calls

/-! ## What leaves the crons alone -/

/-- The crons, their locks and their instances. -/
def Store.cronTables (s : Store) :
    Table CronRecord × (AList fun _ : String × Int => Int) × Table String :=
  (s.crons, s.cronLocks, s.cronInstances)

section
variable {cfg : Config} {lib : CronLib} {ρ : Rules} {w w' : World} {c : Call} {a : Answer c}

theorem Rules.env_cronTables (hc : c.sparesCrons = true) (he : ρ.env c w a w') :
    w'.store.cronTables = w.store.cronTables := by
  refine Rules.env_frame Store.cronTables (fun d hd => ?_) he
  subst hd
  cases d <;> first | (cases hc; done) | rfl | (simp only [Store.run]; split <;> rfl)

theorem runs_cronTables {α : Type} {p : M α} {a : α} (hp : p.Only (·.sparesCrons = true))
    (h : Runs ρ.env p w a w') : w'.store.cronTables = w.store.cronTables := by
  induction h with
  | pure => rfl
  | call he _ ih => exact (ih (hp.2 _)).trans (Rules.env_cronTables hp.1 he)

/-- An operation on jobs leaves the crons alone. -/
theorem step_cronTables {l : SystemLabel} (hl : l.tends = true) (hs : SystemStep cfg lib ρ w l w') :
    w'.store.cronTables = w.store.cronTables := by
  cases hs with
  | op o a hfresh hdone hr =>
    cases o with
    | job o => exact runs_cronTables ((op_within cfg o).mono fun _ => And.right) hr
    | _ => cases hl
  | env l hop hs =>
    cases hs with
    | op o a => cases hop
    | expireVisibility m => rfl
    | ensureDLQ queue url _ hr =>
      have hdlq : Apart cfg Writes.all (ensureDLQ cfg queue url) := apart_ensureDLQ queue url
      have hsame := runs_cronTables (hdlq.within.mono fun _ => And.right) hr
      exact hsame
    | tick t _ => rfl
    | expireKey fp item _ _ => rfl

end

/-! ## The locks of a cron -/

/-- The run is at the turn of the cron. -/
def Round.Stands (name : String) (turn : CronTurn) (s : Round) : Prop :=
  ∃ crons ts, s = .going crons (some ((name, ts), turn))

def Round.crons : Round → List CronRecord
  | .start => []
  | .listed crons | .going crons _ => crons

section
variable (cfg : Config) (lib : CronLib)

/-- The second of the next run, as the record has it. -/
def runSecond (cron : CronRecord) : Option Int := (nextRunOf cfg lib cron.nextRunAt).map (·.unix)

/-- Nobody can get the lock of the record's next run any more. -/
def Spent (name : String) (cron : CronRecord) (w : World) : Prop :=
  ∀ ts, runSecond cfg lib cron = some ts → (w.store.cronLocks.lookup (name, ts)).isSome

/-- The cron `name` is stored as `record`. Whoever is at its turn has the lock
of the record's next run, and no other listed record has a lock that is free. -/
structure Exclusive {ι : Type} (name : String) (record : CronRecord) (w : World) (t : ι → Round) :
    Prop where
  named : w.NamedCrons
  stored : w.store.crons.lookup name = some record
  skips : record.overlapPolicy = "skip"
  listed : ∀ i, ∀ cron ∈ (t i).crons, cron.name = name → cron.overlapPolicy = "skip" ∧
    (runSecond cfg lib cron = runSecond cfg lib record ∨ Spent cfg lib name cron w)
  locked : ∀ i turn, (t i).Stands name turn → Spent cfg lib name record w
  alone : ∀ i j turn turn', (t i).Stands name turn → (t j).Stands name turn' → i = j

end

section
variable {ι : Type} {cfg : Config} {lib : CronLib} {ρ : Rules} {w w' : World} {t : ι → Round}
  {i : ι} {c : Call} {a : Answer c} {name : String} {record cron : CronRecord} {s : Round}

theorem Spent.mono (h : Spent cfg lib name cron w) (hlocks : ∀ key,
    (w.store.cronLocks.lookup key).isSome → (w'.store.cronLocks.lookup key).isSome) :
    Spent cfg lib name cron w' := fun ts hts => hlocks _ (h ts hts)

/-- A lock that is free is the one of the record as it is stored. -/
theorem Exclusive.free (h : Exclusive cfg lib name record w t) {ts : Int}
    (hl : LocksListed cfg lib (t i).crons name ts)
    (hfree : w.store.cronLocks.lookup (name, ts) = none) :
    runSecond cfg lib record = some ts ∧ ¬ Spent cfg lib name record w := by
  obtain ⟨cron, hmem, hn, T, hT, hunix⟩ := hl
  have hts : runSecond cfg lib cron = some ts := by
    rw [runSecond, hT, ← hunix]
    rfl
  have hnot : ∀ cron, runSecond cfg lib cron = some ts → ¬ Spent cfg lib name cron w := by
    intro cron hts hs
    have hsome := hs ts hts
    rw [hfree] at hsome
    cases hsome
  rcases (h.listed i cron hmem hn).2 with hsame | hs
  · exact ⟨hsame.symm.trans hts, hnot record (hsame.symm.trans hts)⟩
  · exact absurd hs (hnot cron hts)

/-- The turn goes on, or it ends. -/
theorem Round.Stands.of_map {crons : List CronRecord} {key : String × Int} {next : Option CronTurn}
    {turn' : CronTurn} (h : (Round.going crons (next.map (key, ·))).Stands name turn')
    (turn : CronTurn) : (Round.going crons (some (key, turn))).Stands name turn := by
  obtain ⟨crons, ts, h⟩ := h
  cases next with
  | none => cases h
  | some x =>
    cases h
    exact ⟨_, ts, rfl⟩

/-- The crons are left alone. -/
theorem Exclusive.aside (h : Exclusive cfg lib name record w t)
    (hsame : w'.store.cronTables = w.store.cronTables) : Exclusive cfg lib name record w' t := by
  obtain ⟨hcrons, hrest⟩ := Prod.mk.inj hsame
  obtain ⟨hlocks, -⟩ := Prod.mk.inj hrest
  have hspent : ∀ cron, Spent cfg lib name cron w → Spent cfg lib name cron w' :=
    fun cron hc => hc.mono fun key hk => by rw [hlocks]; exact hk
  refine ⟨fun key r hk => ?_, ?_, h.skips, fun j cron hj hn => ?_, fun j turn hj => ?_, h.alone⟩
  · rw [hcrons] at hk
    exact h.named key r hk
  · rw [hcrons]
    exact h.stored
  · exact (h.listed j cron hj hn).imp_right (Or.imp_right (hspent cron))
  · exact hspent record (h.locked j turn hj)

/-! ### A call of a run -/

variable [DecidableEq ι]

/-- A step that leaves the records alone, and after which the run is at the
turn of the cron only if it was. -/
theorem Exclusive.keep (h : Exclusive cfg lib name record w t)
    (hnamed : w'.NamedCrons) (hstored : w'.store.crons.lookup name = w.store.crons.lookup name)
    (hlocks : ∀ key, (w.store.cronLocks.lookup key).isSome →
      (w'.store.cronLocks.lookup key).isSome)
    (hlisted : ∀ cron ∈ s.crons, cron ∈ (t i).crons ∨
      ∃ key, w.store.crons.lookup key = some cron)
    (hat : ∀ turn, s.Stands name turn → (∃ turn, (t i).Stands name turn) ∨
      Spent cfg lib name record w' ∧ ∀ j turn, ¬ (t j).Stands name turn) :
    Exclusive cfg lib name record w' (Function.update t i s) := by
  have hback : ∀ j turn, (Function.update t i s j).Stands name turn →
      (∃ turn, (t j).Stands name turn) ∨
        j = i ∧ Spent cfg lib name record w' ∧ ∀ k turn, ¬ (t k).Stands name turn := by
    intro j turn hj
    by_cases hji : j = i
    · subst hji
      rw [Function.update_self] at hj
      exact (hat turn hj).imp_right fun h => ⟨rfl, h⟩
    · rw [Function.update_of_ne hji] at hj
      exact .inl ⟨turn, hj⟩
  refine ⟨?_, ?_, h.skips, fun j cron hj hn => ?_, fun j turn hj => ?_, fun j k x y hj hk => ?_⟩
  · exact hnamed
  · exact hstored.trans h.stored
  · have hold : cron ∈ (t j).crons → cron.overlapPolicy = "skip" ∧
        (runSecond cfg lib cron = runSecond cfg lib record ∨ Spent cfg lib name cron w') :=
      fun hj => (h.listed j cron hj hn).imp_right (Or.imp_right (·.mono hlocks))
    by_cases hji : j = i
    · subst hji
      rw [Function.update_self] at hj
      rcases hlisted cron hj with hj | ⟨key, hkey⟩
      · exact hold hj
      · obtain rfl : name = key := hn.symm.trans (h.named key cron hkey)
        obtain rfl : record = cron := Option.some.inj (h.stored.symm.trans hkey)
        exact ⟨h.skips, .inl rfl⟩
    · rw [Function.update_of_ne hji] at hj
      exact hold hj
  · rcases hback j turn hj with ⟨turn, hj⟩ | ⟨-, hs, -⟩
    · exact (h.locked j turn hj).mono hlocks
    · exact hs
  · rcases hback j x hj with ⟨x', hj⟩ | ⟨rfl, -, hno⟩
    · rcases hback k y hk with ⟨y', hk⟩ | ⟨-, -, hno⟩
      · exact h.alone j k x' y' hj hk
      · exact absurd hj (hno j x')
    · rcases hback k y hk with ⟨y', hk⟩ | ⟨rfl, -, -⟩
      · exact absurd hk (hno k y')
      · rfl

/-- The cron is written back at the end of its turn. -/
theorem Exclusive.back (h : Exclusive cfg lib name record w t) {r : CronRecord} {turn : CronTurn}
    (hi : (t i).Stands name turn) (hcrons : w'.store.crons = w.store.crons.insert name r)
    (hlocks : w'.store.cronLocks = w.store.cronLocks) (hn : r.name = name)
    (hskip : r.overlapPolicy = "skip") (hs : s.crons = (t i).crons)
    (hleft : ∀ turn, ¬ s.Stands name turn) :
    Exclusive cfg lib name r w' (Function.update t i s) := by
  have hno : ∀ j turn, ¬ (Function.update t i s j).Stands name turn := by
    intro j turn' hj
    by_cases hji : j = i
    · subst hji
      rw [Function.update_self] at hj
      exact hleft turn' hj
    · rw [Function.update_of_ne hji] at hj
      exact hji (h.alone j i turn' turn hj hi)
  have hspent : ∀ cron, Spent cfg lib name cron w → Spent cfg lib name cron w' :=
    fun cron hc => hc.mono fun key hk => by rw [hlocks]; exact hk
  refine ⟨fun key cron hk => ?_, ?_, hskip, fun j cron hj hcn => ?_,
    fun j turn hj => absurd hj (hno j turn), fun j _ x _ hj => absurd hj (hno j x)⟩
  · rw [hcrons] at hk
    by_cases hkey : key = name
    · subst hkey
      rw [AList.lookup_insert] at hk
      exact Option.some.inj hk ▸ hn
    · rw [AList.lookup_insert_ne hkey] at hk
      exact h.named key cron hk
  · rw [hcrons]
    exact AList.lookup_insert _
  · have hold : cron ∈ (t j).crons := by
      by_cases hji : j = i
      · subst hji
        rwa [Function.update_self, hs] at hj
      · rwa [Function.update_of_ne hji] at hj
    obtain ⟨hpolicy, hsame | hc⟩ := h.listed j cron hold hcn
    · refine ⟨hpolicy, .inr (hspent cron fun ts hts => ?_)⟩
      exact h.locked i turn hi ts (hsame ▸ hts)
    · exact ⟨hpolicy, .inr (hspent cron hc)⟩

/-- A call after which the run is at no turn of the cron. -/
theorem Exclusive.away (h : Exclusive cfg lib name record w t) (he : ρ.skewed c w a w')
    (hstored : w'.store.crons.lookup name = w.store.crons.lookup name)
    (hcrons : s.crons = (t i).crons) (hno : ∀ turn, ¬ s.Stands name turn) :
    Exclusive cfg lib name record w' (Function.update t i s) :=
  h.keep (Rules.skewed_named he h.named) hstored (fun _ => Rules.skewed_locks he)
    (fun _ hmem => .inl (hcrons ▸ hmem)) fun turn hat => absurd hat (hno turn)

/-- A call in a turn of some cron that leaves the crons alone. -/
theorem Exclusive.inTurn (h : Exclusive cfg lib name record w t) {crons : List CronRecord}
    {key : String × Int} {turn : CronTurn} (hi : t i = .going crons (some (key, turn)))
    (hc : c.writesCron = none) (he : ρ.skewed c w a w') :
    Exclusive cfg lib name record w'
      (Function.update t i (.going crons ((turn.next c a).map (key, ·)))) := by
  refine h.keep (Rules.skewed_named he h.named) (Rules.skewed_noCron hc he)
    (fun _ => Rules.skewed_locks he) (fun cron hmem => ?_) fun turn' hat => .inl ⟨turn, ?_⟩
  · rw [hi]
    exact .inl hmem
  · rw [hi]
    exact hat.of_map turn

/-- The lock of a listed cron is acquired. -/
theorem Exclusive.acquire (h : Exclusive cfg lib name record w t) {crons : List CronRecord}
    {n : String} {ts ttl : Int} {u : Unit} (hcrons : (t i).crons = crons)
    (hl : LocksListed cfg lib crons n ts)
    (he : ρ.skewed (.dynamo (.putCronLockItem n ts ttl)) w
      (Except.ok u : Except AwsError Unit) w') :
    Exclusive cfg lib name record w'
      (Function.update t i (.going crons (some ((n, ts), .checking)))) := by
  obtain ⟨hfree, hput⟩ := Rules.skewed_acquire he
  refine h.keep (Rules.skewed_named he h.named) (Rules.skewed_noCron rfl he)
    (fun _ => Rules.skewed_locks he) (fun cron hmem => .inl (hcrons ▸ hmem)) ?_
  rintro turn' ⟨_, _, hat⟩
  cases hat
  obtain ⟨hts, hnot⟩ := h.free (hcrons.symm ▸ hl) hfree
  refine .inr ⟨fun ts' hts' => ?_, fun j turn hj => hnot (h.locked j turn hj)⟩
  obtain rfl : ts = ts' := Option.some.inj (hts.symm.trans hts')
  rw [hput, AList.lookup_insert]
  rfl

/-- **A call of a run.** -/
theorem Exclusive.call (h : Exclusive cfg lib name record w t) (ha : (t i).Permits cfg lib c)
    (he : ρ.skewed c w a w') : ∃ record',
      Exclusive cfg lib name record' w' (Function.update t i ((t i).next c a)) ∧
        (record' = record ∨
          (t i).Stands name .closing ∧ ∀ turn, ¬ ((t i).next c a).Stands name turn) := by
  have hstored : c.writesCron = none →
      w'.store.crons.lookup name = w.store.crons.lookup name := fun hc => Rules.skewed_noCron hc he
  have hnone : ∀ crons turn, ¬ (Round.going crons none).Stands name turn :=
    fun _ _ ⟨_, _, hat⟩ => by cases hat
  generalize hs : t i = s at ha
  cases ha with
  | scan =>
    rcases a with e | crons
    · exact ⟨record, h.away he (hstored rfl) (by rw [hs]; rfl) fun _ ⟨_, _, hat⟩ => (by cases hat),
        .inl rfl⟩
    · refine ⟨record, h.keep (Rules.skewed_named he h.named) (hstored rfl)
        (fun _ => Rules.skewed_locks he) ?_ fun _ ⟨_, _, hat⟩ => (by cases hat), .inl rfl⟩
      exact fun cron hm => .inr ⟨_, (Rules.skewed_scan h.named he).2 cron hm⟩
  | begin => exact ⟨record, h.away he (hstored rfl) (by rw [hs]; rfl) (hnone _), .inl rfl⟩
  | @now crons turn =>
    rcases turn with _ | ⟨key, turn⟩
    · exact ⟨record, h.away he (hstored rfl) (by rw [hs]; rfl) (hnone _), .inl rfl⟩
    · exact ⟨record, h.inTurn hs rfl he, .inl rfl⟩
  | lock hlisted =>
    rcases a with e | u
    · exact ⟨record, h.away he (hstored rfl) (by rw [hs]; rfl) (hnone _), .inl rfl⟩
    · exact ⟨record, h.acquire (by rw [hs]; rfl) hlisted he, .inl rfl⟩
  | @back crons key cron r hmem hcn hrn hpolicy =>
    have hcrons : (Round.going crons none).crons = (t i).crons := by
      rw [hs]
      rfl
    rcases Rules.skewed_write rfl ⟨_, _, rfl⟩ he with ⟨-, hw⟩ | ⟨-, rfl⟩
    · by_cases hn : key.1 = name
      · subst hn
        have hskip : r.overlapPolicy = "skip" :=
          hpolicy.trans (h.listed i cron (hcrons ▸ hmem) hcn).1
        have hover : (t i).Stands key.1 .closing := ⟨crons, key.2, hs⟩
        refine ⟨r, h.back hover ?_ ?_ hrn hskip hcrons (hnone _),
          .inr ⟨⟨crons, key.2, rfl⟩, hnone _⟩⟩
        · rw [hw, ← hrn]
          rfl
        · rw [hw]
          rfl
      · have hother : (Call.dynamo (.putCronItem r)).writesCron ≠ some name :=
          fun hc => hn (hrn.symm.trans (Option.some.inj hc))
        exact ⟨record, h.away he (Rules.skewed_cron hother he) hcrons (hnone _), .inl rfl⟩
    · exact ⟨record, h.away he rfl hcrons (hnone _), .inl rfl⟩
  | _ => exact ⟨record, h.inTurn hs rfl he, .inl rfl⟩

end
end OjsSqs
