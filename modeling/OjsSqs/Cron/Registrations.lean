import OjsSqs.Cron.Schedules

/-! # Registrations and runs

A run of `FireCronJobs` lists the crons once and writes whole records back as
it gets to them. What it writes back of a cron that has been registered again
or deleted in between undoes the registration or the deletion. -/
namespace OjsSqs
open Calls

variable {ι : Type}

/-- What an event settles about the cron `name`: the record a registration
has written, or its absence after a deletion. -/
def settles (op : ι → CronOp) (name : String) : Event ι Call Answer → Option (Option CronRecord)
  | ⟨i, .dynamo (.putCronItem r), .ok _⟩ => match op i with
    | .register _ _ => if r.name = name then some (some r) else none
    | _ => none
  | ⟨_, .dynamo (.deleteCronItem n), .ok _⟩ => if n = name then some none else none
  | _ => none

/-- The latest registration or deletion, in a trace that begins with the
latest event. -/
def settled (op : ι → CronOp) (name : String) (trace : List (Event ι Call Answer)) :
    Option (Option CronRecord) :=
  trace.findSome? (settles op name)

variable [DecidableEq ι]

/-- Thread `i` has listed the crons since then. -/
def listedSince (op : ι → CronOp) (name : String) (i : ι) : List (Event ι Call Answer) → Bool
  | [] => false
  | e :: trace =>
    if (settles op name e).isSome then false
    else if e.thread = i ∧ e.call = .dynamo .scanCrons then true
    else listedSince op name i trace

/-- A run writes back the cron only if it has listed the crons since the latest
registration or deletion. -/
def WritesFresh (op : ι → CronOp) (name : String) (tr : List (Event ι Call Answer)) (_ : World)
    (e : Event ι Call Answer) : Prop :=
  match op e.thread, e with
  | .fire _, ⟨i, .dynamo (.putCronItem r), .ok _⟩ =>
    r.name = name → listedSince op name i tr.reverse = true
  | _, _ => True

/-- The record a run writes back. -/
def writtenBack (op : ι → CronOp) (e : Event ι Call Answer) : Option CronRecord :=
  match op e.thread, e with
  | .fire _, ⟨_, .dynamo (.putCronItem r), .ok _⟩ => some r
  | _, _ => none

theorem writesFresh_iff (op : ι → CronOp) (name : String) (tr : List (Event ι Call Answer)) (w : World)
    (e : Event ι Call Answer) : WritesFresh op name tr w e ↔ ∀ r ∈ writtenBack op e,
      r.name = name → listedSince op name e.thread tr.reverse = true := by
  unfold WritesFresh writtenBack
  split <;> simp

instance (op : ι → CronOp) (name : String) (tr : List (Event ι Call Answer)) (w : World)
    (e : Event ι Call Answer) : Decidable (WritesFresh op name tr w e) :=
  decidable_of_iff _ (writesFresh_iff op name tr w e).symm

/-- What a registration says about a cron. -/
structure SameCron (r r' : CronRecord) : Prop where
  expression : r.expression = r'.expression
  timezone : r.timezone = r'.timezone
  overlapPolicy : r.overlapPolicy = r'.overlapPolicy
  jobTemplate : r.jobTemplate = r'.jobTemplate
  queue : r.queue = r'.queue

theorem SameCron.refl (r : CronRecord) : SameCron r r := ⟨rfl, rfl, rfl, rfl, rfl⟩

theorem SameCron.symm {r r' : CronRecord} (h : SameCron r r') : SameCron r' r :=
  ⟨h.1.symm, h.2.symm, h.3.symm, h.4.symm, h.5.symm⟩

theorem SameCron.trans {r r' r'' : CronRecord} (h : SameCron r r') (h' : SameCron r' r'') :
    SameCron r r'' :=
  ⟨h.1.trans h'.1, h.2.trans h'.2, h.3.trans h'.3, h.4.trans h'.4, h.5.trans h'.5⟩

/-- The store has what was settled last: no record after a deletion, and what
the latest registration says after a registration. -/
def AsSettled (op : ι → CronOp) (name : String) (tr : List (Event ι Call Answer)) (w : World) : Prop :=
  ∀ s, settled op name tr.reverse = some s → match s with
    | none => w.store.crons.lookup name = none
    | some r => ∃ r', w.store.crons.lookup name = some r' ∧ SameCron r' r

/-- Every cron's record is stored under its name. -/
def World.NamedCrons (w : World) : Prop :=
  ∀ name r, w.store.crons.lookup name = some r → r.name = name

/-! ## What the calls do to a cron -/

section
variable {cfg : Config} {lib : CronLib} {ρ : Rules} {w w' : World} {name : String}

omit [DecidableEq ι] in
theorem WritesBack.same {zone : String} {now : Time} {cron r : CronRecord}
    (h : WritesBack cfg lib zone now cron r) : SameCron r cron ∧ r.name = cron.name := by
  rw [WritesBack] at h
  split at h <;> subst h <;> exact ⟨⟨rfl, rfl, rfl, rfl, rfl⟩, rfl⟩

/-- The crons a call writes. -/
def Call.writesCron : Call → Option String
  | .dynamo (.putCronItem r) => some r.name
  | .dynamo (.deleteCronItem name) => some name
  | _ => none

omit [DecidableEq ι] in
theorem Rules.skewed_cron {c : Call} {r : Answer c} (hc : c.writesCron ≠ some name)
    (h : ρ.skewed c w r w') : w'.store.crons.lookup name = w.store.crons.lookup name := by
  refine Rules.skewed_frame (fun s => s.crons.lookup name) (fun d hd => ?_) h
  subst hd
  cases d <;> simp only [Store.run] <;> (try split) <;>
    first
    | rfl
    | exact AList.lookup_insert_ne fun hn => hc (by rw [hn]; rfl)
    | exact AList.lookup_erase_ne fun hn => hc (by rw [hn]; rfl)

omit [DecidableEq ι] in
theorem Rules.skewed_noCron {c : Call} {r : Answer c} (hc : c.writesCron = none)
    (h : ρ.skewed c w r w') : w'.store.crons.lookup name = w.store.crons.lookup name :=
  Rules.skewed_cron (hc.trans_ne nofun) h

omit [DecidableEq ι] in
/-- A write that succeeds is carried out, and one that fails changes nothing. -/
theorem Rules.skewed_write {d : DynamoCall} (hd : d.isPaged = false)
    (hrun : ∃ a s, w.store.run d = (.ok a, s)) {r : Except AwsError d.Answer}
    (h : ρ.skewed (.dynamo d) w r w') :
    (∃ a, r = .ok a) ∧ w'.store = (w.store.run d).2 ∨ (∃ e, r = .error e) ∧ w' = w := by
  rcases Rules.skewed_cases h with he | ⟨hc, -⟩
  · cases r with
    | ok a =>
      exact .inl ⟨⟨a, rfl⟩, congrArg Prod.snd (Rules.env_ok hd he)⟩
    | error e =>
      obtain ⟨ch, s', -, hact, rfl⟩ := Rules.env_dynamo he
      rcases Store.act_cases hact with hr | rfl
      · obtain ⟨a, s, hrun⟩ := hrun
        rw [hrun] at hr
        cases (Prod.mk.inj hr).1
      · exact .inr ⟨⟨e, rfl⟩, rfl⟩
  · cases hc

omit [DecidableEq ι] in
theorem Rules.skewed_named {c : Call} {r : Answer c} (h : ρ.skewed c w r w')
    (hn : w.NamedCrons) : w'.NamedCrons := by
  intro n x hx
  by_cases hc : c.writesCron = some n
  · cases c with
    | dynamo d =>
      cases d with
      | putCronItem y =>
        obtain rfl : y.name = n := Option.some.inj hc
        rcases Rules.skewed_write rfl ⟨_, _, rfl⟩ h with ⟨-, hs⟩ | ⟨-, rfl⟩
        · rw [hs] at hx
          simp only [Store.run, AList.lookup_insert, Option.some.injEq] at hx
          rw [hx]
        · exact hn _ x hx
      | deleteCronItem m =>
        obtain rfl : m = n := Option.some.inj hc
        rcases Rules.skewed_write rfl ⟨_, _, rfl⟩ h with ⟨-, hs⟩ | ⟨-, rfl⟩
        · rw [hs] at hx
          simp only [Store.run, AList.lookup_erase] at hx
          cases hx
        · exact hn _ x hx
      | _ => cases hc
    | sqs c => cases hc
    | proc c => cases hc
  · rw [Rules.skewed_cron hc h] at hx
    exact hn n x hx

omit [DecidableEq ι] in
/-- A scan lists stored records, each once. -/
theorem Rules.env_scan {crons : List CronRecord} (hn : w.NamedCrons)
    (h : ρ.env (.dynamo .scanCrons) w (Except.ok crons : Except AwsError (List CronRecord)) w') :
    w' = w ∧ (∀ cron ∈ crons, w.store.crons.lookup cron.name = some cron) ∧
      (crons.map (·.name)).Nodup := by
  obtain ⟨ch, s', -, hact, rfl⟩ := Rules.env_dynamo h
  cases ch with
  | page names =>
    obtain ⟨hpage, hr⟩ := Option.ite_none_right_eq_some.mp hact
    cases hr
    obtain ⟨hnodup, hstored⟩ := Bool.and_eq_true_iff.mp hpage
    refine ⟨rfl, fun cron hcron => ?_, ?_⟩
    · obtain ⟨n, -, hlookup⟩ := List.mem_filterMap.mp hcron
      rw [hn n cron hlookup]
      exact hlookup
    · have hnames : (names.filterMap w.store.crons.lookup).map (·.name) = names := by
        rw [List.map_filterMap]
        refine (List.filterMap_congr fun n hmem => ?_).trans List.filterMap_some
        obtain ⟨r, hr⟩ := Option.isSome_iff_exists.mp (List.all_eq_true.mp hstored n hmem)
        rw [hr, Option.map_some, hn n r hr]
      rw [hnames]
      exact of_decide_eq_true hnodup
  | _ => cases hact

omit [DecidableEq ι] in
theorem Rules.skewed_scan {crons : List CronRecord} (hn : w.NamedCrons)
    (h : ρ.skewed (.dynamo .scanCrons) w (Except.ok crons : Except AwsError (List CronRecord)) w') :
    w' = w ∧ ∀ cron ∈ crons, w.store.crons.lookup cron.name = some cron := by
  rcases Rules.skewed_cases h with he | ⟨hc, -⟩
  · exact ⟨(Rules.env_scan hn he).1, (Rules.env_scan hn he).2.1⟩
  · cases hc

end

/-! ## The invariant -/

/-- The crons a run has listed. -/
def Firing.crons : Firing → List CronRecord
  | .start => []
  | .listed crons => crons
  | .turn _ crons _ _ => crons

structure Enrolled (op : ι → CronOp) (name : String) (tr : List (Event ι Call Answer)) (w : World)
    (t : ι → Firing) : Prop where
  named : w.NamedCrons
  settled : AsSettled op name tr w
  copies : ∀ i, listedSince op name i tr.reverse = true → ∀ cron ∈ (t i).crons, cron.name = name →
    ∃ r, w.store.crons.lookup name = some r ∧ SameCron r cron

section
variable {cfg : Config} {lib : CronLib} {ρ : Rules} {op : ι → CronOp} {name : String}
  {tr : List (Event ι Call Answer)} {w w' : World} {t : ι → Firing} {i : ι} {c : Call}
  {r : Answer c} {s : Firing}

omit [DecidableEq ι] in
theorem settled_append (e : Event ι Call Answer) : settled op name (tr ++ [e]).reverse =
    (settles op name e).or (settled op name tr.reverse) := by
  rw [List.reverse_append]
  simp only [settled, List.reverse_singleton, List.singleton_append, List.findSome?_cons]
  cases settles op name e <;> rfl

theorem listedSince_append (e : Event ι Call Answer) (j : ι) :
    listedSince op name j (tr ++ [e]).reverse =
      if (settles op name e).isSome then false
      else if e.thread = j ∧ e.call = .dynamo .scanCrons then true
      else listedSince op name j tr.reverse := by
  rw [List.reverse_append]
  rfl

/-- A call that settles nothing, lists nothing and leaves the cron as a
registration describes it. -/
theorem Enrolled.keep (h : Enrolled op name tr w t) (he : ρ.skewed c w r w')
    (hsettles : settles op name ⟨i, c, r⟩ = none)
    (hlist : c = .dynamo .scanCrons → s.crons = [])
    (hs : c ≠ .dynamo .scanCrons → s.crons = (t i).crons ∨ s.crons = [])
    (hnone : w.store.crons.lookup name = none → w'.store.crons.lookup name = none)
    (hsome : ∀ x, w.store.crons.lookup name = some x →
      ∃ x', w'.store.crons.lookup name = some x' ∧ SameCron x' x) :
    Enrolled op name (tr ++ [⟨i, c, r⟩]) w' (Function.update t i s) := by
  refine ⟨Rules.skewed_named he h.named, fun x hx => ?_, fun j hj cron hcron hname => ?_⟩
  · rw [settled_append, hsettles, Option.none_or] at hx
    have hold := h.settled x hx
    cases x with
    | none => exact hnone hold
    | some x =>
      obtain ⟨y, hy, hsame⟩ := hold
      obtain ⟨y', hy', hsame'⟩ := hsome y hy
      exact ⟨y', hy', hsame'.trans hsame⟩
  · rw [listedSince_append, hsettles, Option.isSome_none, if_neg Bool.false_ne_true] at hj
    have hold : ∀ cron ∈ (t j).crons, cron.name = name → listedSince op name j tr.reverse = true →
        ∃ x', w'.store.crons.lookup name = some x' ∧ SameCron x' cron := by
      intro cron hcron hname hsince
      obtain ⟨x, hx, hsame⟩ := h.copies j hsince cron hcron hname
      obtain ⟨x', hx', hsame'⟩ := hsome x hx
      exact ⟨x', hx', hsame'.trans hsame⟩
    by_cases hji : j = i
    · subst hji
      rw [Function.update_self] at hcron
      by_cases hc : c = .dynamo .scanCrons
      · rw [hlist hc] at hcron
        cases hcron
      · rw [if_neg (fun hcon => hc hcon.2)] at hj
        rcases hs hc with heq | hnil
        · exact hold cron (heq ▸ hcron) hname hj
        · rw [hnil] at hcron
          cases hcron
    · rw [if_neg (fun hcon => hji hcon.1.symm)] at hj
      rw [Function.update_of_ne hji] at hcron
      exact hold cron hcron hname hj

/-- The crons are listed: what was listed is what is stored. -/
theorem Enrolled.list (h : Enrolled op name tr w t) {crons : List CronRecord}
    (he : ρ.skewed (.dynamo .scanCrons) w (Except.ok crons : Except AwsError (List CronRecord)) w')
    (hs : s.crons = crons) :
    Enrolled op name (tr ++ [⟨i, .dynamo .scanCrons, .ok crons⟩]) w' (Function.update t i s) := by
  obtain ⟨rfl, hstored⟩ := Rules.skewed_scan h.named he
  refine ⟨h.named, fun x hx => ?_, fun j hj cron hcron hname => ?_⟩
  · rw [settled_append] at hx
    exact h.settled x hx
  · by_cases hji : j = i
    · subst hji
      rw [Function.update_self, hs] at hcron
      exact ⟨cron, hname ▸ hstored cron hcron, .refl cron⟩
    · rw [Function.update_of_ne hji] at hcron
      rw [listedSince_append, show settles op name ⟨i, .dynamo .scanCrons, .ok crons⟩ = none from rfl,
        Option.isSome_none, if_neg Bool.false_ne_true, if_neg (fun hcon => hji hcon.1.symm)] at hj
      exact h.copies j hj cron hcron hname

/-- A registration or a deletion: from here on no copy is fresh. -/
theorem Enrolled.settle (h : Enrolled op name tr w t) (he : ρ.skewed c w r w') {x : Option CronRecord}
    (hsettles : settles op name ⟨i, c, r⟩ = some x)
    (hx : w'.store.crons.lookup name = x) :
    Enrolled op name (tr ++ [⟨i, c, r⟩]) w' (Function.update t i s) := by
  refine ⟨Rules.skewed_named he h.named, fun y hy => ?_, fun j hj => ?_⟩
  · rw [settled_append, hsettles, Option.some_or] at hy
    obtain rfl := Option.some.inj hy
    cases x with
    | none => exact hx
    | some x => exact ⟨x, hx, .refl x⟩
  · rw [listedSince_append, hsettles] at hj
    cases hj

/-- A call that is no scan and does not write the cron. -/
theorem Enrolled.pass (h : Enrolled op name tr w t) (he : ρ.skewed c w r w')
    (hsettles : settles op name ⟨i, c, r⟩ = none) (hlist : c ≠ .dynamo .scanCrons)
    (hw : w'.store.crons.lookup name = w.store.crons.lookup name)
    (hs : s.crons = (t i).crons ∨ s.crons = []) :
    Enrolled op name (tr ++ [⟨i, c, r⟩]) w' (Function.update t i s) :=
  h.keep he hsettles (fun hc => absurd hc hlist) (fun _ => hs) (fun hn => hw.trans hn)
    fun x hx => ⟨x, hw.trans hx, .refl x⟩

/-- A run writes back what it has listed since the latest registration or
deletion. -/
theorem Enrolled.writeBack (h : Enrolled op name tr w t) {x : CronRecord} {zone : String}
    {a : Except AwsError Unit} (ho : op i = .fire zone)
    (he : ρ.skewed (.dynamo (.putCronItem x)) w a w')
    (hx : ∃ cron ∈ (t i).crons, SameCron x cron ∧ x.name = cron.name)
    (hfresh : (∃ u, a = .ok u) → x.name = name → listedSince op name i tr.reverse = true)
    (hs : s.crons = (t i).crons) :
    Enrolled op name (tr ++ [⟨i, .dynamo (.putCronItem x), a⟩]) w' (Function.update t i s) := by
  have hsettles : settles op name ⟨i, .dynamo (.putCronItem x), a⟩ = none := by
    rcases a with e | u
    · rfl
    · simp only [settles, ho]
  by_cases hn : x.name = name
  · rcases Rules.skewed_write rfl ⟨_, _, rfl⟩ he with ⟨hok, hst⟩ | ⟨-, rfl⟩
    · obtain ⟨cron, hmem, hsame, hname⟩ := hx
      obtain ⟨y, hy, hcopy⟩ := h.copies i (hfresh hok hn) cron hmem (hname.symm.trans hn)
      have hput : w'.store.crons.lookup name = some x := by
        rw [hst, ← hn]
        exact AList.lookup_insert _
      refine h.keep he hsettles nofun (fun _ => .inl hs) (fun hnone => ?_) fun z hz => ?_
      · rw [hy] at hnone
        cases hnone
      · rw [hy] at hz
        cases hz
        exact ⟨x, hput, hsame.trans hcopy.symm⟩
    · exact h.pass he hsettles nofun rfl (.inl hs)
  · exact h.pass he hsettles nofun
      (Rules.skewed_cron (c := .dynamo (.putCronItem x)) (fun hc => hn (Option.some.inj hc)) he)
      (.inl hs)

theorem Enrolled.register (h : Enrolled op name tr w t) {x : CronRecord} {zone : String} {cronJob : CronJob}
    {a : Except AwsError Unit} (ho : op i = .register zone cronJob)
    (he : ρ.skewed (.dynamo (.putCronItem x)) w a w') (hs : s.crons = (t i).crons) :
    Enrolled op name (tr ++ [⟨i, .dynamo (.putCronItem x), a⟩]) w' (Function.update t i s) := by
  rcases Rules.skewed_write rfl ⟨_, _, rfl⟩ he with ⟨⟨u, rfl⟩, hst⟩ | ⟨⟨e, rfl⟩, rfl⟩
  · by_cases hn : x.name = name
    · refine h.settle he (x := some x) ?_ ?_
      · simp only [settles, ho, if_pos hn]
      · rw [hst, ← hn]
        exact AList.lookup_insert _
    · refine h.pass he ?_ nofun (Rules.skewed_cron (c := .dynamo (.putCronItem x))
        (fun hc => hn (Option.some.inj hc)) he) (.inl hs)
      simp only [settles, ho, if_neg hn]
  · exact h.pass he rfl nofun rfl (.inl hs)

theorem Enrolled.delete (h : Enrolled op name tr w t) {n : String} {a : Except AwsError Unit}
    (he : ρ.skewed (.dynamo (.deleteCronItem n)) w a w') (hs : s.crons = (t i).crons) :
    Enrolled op name (tr ++ [⟨i, .dynamo (.deleteCronItem n), a⟩]) w' (Function.update t i s) := by
  rcases Rules.skewed_write rfl ⟨_, _, rfl⟩ he with ⟨⟨u, rfl⟩, hst⟩ | ⟨⟨e, rfl⟩, rfl⟩
  · by_cases hn : n = name
    · refine h.settle he (x := none) ?_ ?_
      · simp only [settles, if_pos hn]
      · rw [hst, ← hn]
        exact AList.lookup_erase n _
    · refine h.pass he ?_ nofun (Rules.skewed_cron (c := .dynamo (.deleteCronItem n))
        (fun hc => hn (Option.some.inj hc)) he) (.inl hs)
      simp only [settles, if_neg hn]
  · exact h.pass he rfl nofun rfl (.inl hs)

theorem Enrolled.step (h : Enrolled op name tr w t) (ha : ((op i).monitor cfg lib).allow (t i) c)
    (he : ρ.skewed c w r w') (hok : WritesFresh op name tr w ⟨i, c, r⟩) :
    Enrolled op name (tr ++ [⟨i, c, r⟩]) w'
      (Function.update t i (((op i).monitor cfg lib).next (t i) c r)) := by
  cases ho : op i with
  | delete n =>
    rw [ho] at ha
    rcases ha with rfl | rfl
    · exact h.pass he rfl nofun (Rules.skewed_noCron rfl he) (.inl rfl)
    · exact h.delete he rfl
  | register zone cronJob =>
    rw [ho] at ha
    cases hs : t i with
    | start =>
      rw [hs] at ha
      subst ha
      exact h.pass he rfl nofun (Rules.skewed_noCron rfl he) (.inr rfl)
    | listed crons =>
      rw [hs] at ha
      exact ha.elim
    | turn now crons lock spent =>
      rw [hs] at ha
      obtain ⟨schedule, -, rfl⟩ := ha
      exact h.register ho he (by rw [hs]; rfl)
  | fire zone =>
    rw [ho] at ha
    cases hs : t i with
    | start =>
      rw [hs] at ha
      subst ha
      rcases r with e | crons
      · exact h.keep he rfl (fun _ => rfl) (fun hc => absurd rfl hc)
          (fun hn => (Rules.skewed_noCron rfl he).trans hn)
          fun x hx => ⟨x, (Rules.skewed_noCron rfl he).trans hx, .refl x⟩
      · exact h.list he rfl
    | listed crons =>
      rw [hs] at ha
      subst ha
      exact h.pass he rfl nofun (Rules.skewed_noCron rfl he) (.inl (by rw [hs]; rfl))
    | turn now crons lock spent =>
      rw [hs] at ha
      cases c with
      | sqs c =>
        exact h.pass he rfl nofun (Rules.skewed_noCron rfl he) (.inl (by rw [hs]; rfl))
      | proc c =>
        exact h.pass he rfl nofun (Rules.skewed_noCron rfl he) (.inl (by rw [hs]; rfl))
      | dynamo d =>
        cases d with
        | putCronItem x =>
          obtain ⟨cron, hmem, hback⟩ := ha
          refine h.writeBack ho he ⟨cron, by rw [hs]; exact hmem, hback.same⟩ ?_ (by rw [hs]; rfl)
          rintro ⟨u, rfl⟩
          simp only [WritesFresh, ho] at hok
          exact hok
        | deleteCronItem n => exact ha.elim
        | scanCrons => exact ha.elim
        | putCronLockItem n ts ttl =>
          refine h.pass he rfl nofun (Rules.skewed_noCron rfl he) (.inl ?_)
          rw [hs]
          rcases r with e | u <;> rfl
        | _ => exact h.pass he rfl nofun (Rules.skewed_noCron rfl he) (.inl (by rw [hs]; rfl))

end

/-! ## The theorem -/

/-- **The latest registration stands.** As long as no run writes back a cron
that was registered or deleted since the run has listed it, a deleted cron
stays away and a registered one is as its latest registration says. -/
theorem registrations_stand {cfg : Config} {lib : CronLib} {ρ : Rules} {op : ι → CronOp}
    {name : String} {w : World} {tr : List (Event ι Call Answer)}
    {P : Pool ι World Call Answer Unit} (hn : w.NamedCrons)
    (hr : Pool.Run ρ.skewed (WritesFresh op name) ⟨w, fun i => (op i).prog cfg lib⟩ tr P) :
    AsSettled op name tr P.world := by
  refine (hr.invariant (m := fun i => (op i).monitor cfg lib) (s := fun _ => .start)
    (fun tr w t => Enrolled op name tr w t) (fun i => CronOp.conforms cfg lib (op i)) ?_
    fun tr w t i c r w' h ha he hok => h.step ha he hok).1.settled
  exact ⟨hn, fun x hx => (by cases hx), fun i hi => (by cases hi)⟩

/-! ## A deletion during a run -/

/-- One process fires the report, one client deletes it. -/
def fireAndDelete : Bool → CronOp
  | true => .fire "UTC"
  | false => .delete "report"

/-- The run up to its push, and the rest of it. -/
def reportListed : List (Bool × Choice) :=
  [(true, .page ["report"]), (true, .tick (24 * hour)), (true, .tick (24 * hour)), (true, .ok)]
def reportWritten : List (Bool × Choice) := (reportRun (24 * hour)).map fun ch => (true, ch)

/-- The deletion. -/
def reportDeleted : List (Bool × Choice) := [(false, .ok), (false, .ok)]

def deletePool : Pool Bool World Call Answer Unit :=
  ⟨reportWorld, fun i => (fireAndDelete i).prog cronDemo demoLib⟩

theorem reportWorld_named : reportWorld.NamedCrons := by
  intro name r hr
  by_cases hn : name = "report"
  · subst hn
    cases hr
    rfl
  · rw [show reportWorld.store.crons.lookup name = (∅ : Table CronRecord).lookup name from
      AList.lookup_insert_ne hn] at hr
    cases hr

/-- A cron that is deleted after a run stays away. -/
theorem registrations_stand_deleted : ∃ (tr : List (Event Bool Call Answer))
    (P : Pool Bool World Call Answer Unit),
    settled fireAndDelete "report" tr.reverse = some none ∧
      AsSettled fireAndDelete "report" tr P.world := by
  have hrun : ∃ out, Pool.script (Rules.skewedAct {}) (WritesFresh fireAndDelete "report") []
      (reportListed ++ reportWritten ++ reportDeleted) deletePool = some out ∧
      settled fireAndDelete "report" out.1.reverse = some none := ⟨_, rfl, rfl⟩
  obtain ⟨⟨tr, P⟩, hscript, hs⟩ := hrun
  exact ⟨tr, P, hs, @registrations_stand _ _ cronDemo demoLib _ _ _ _ _ _ reportWorld_named
    (Pool.script_run _ .start hscript)⟩

/-- A run that has listed the cron before it was deleted brings it back. -/
theorem fire_brings_back : ¬ ∀ (cfg : Config) (lib : CronLib) (ρ : Rules) (op : Bool → CronOp)
    (name : String) (w : World) (tr : List (Event Bool Call Answer))
    (P : Pool Bool World Call Answer Unit), w.NamedCrons →
    Pool.Run ρ.skewed Pool.anyStep ⟨w, fun i => (op i).prog cfg lib⟩ tr P →
    AsSettled op name tr P.world := by
  intro hall
  have hrun : ∃ out, Pool.script (Rules.skewedAct {}) Pool.anyStep []
      (reportListed ++ reportDeleted ++ reportWritten) deletePool = some out ∧
      settled fireAndDelete "report" out.1.reverse = some none ∧
      (out.2.world.store.crons.lookup "report").isSome = true := ⟨_, rfl, rfl, rfl⟩
  obtain ⟨⟨tr, P⟩, hscript, hs, hback⟩ := hrun
  have hgone := hall cronDemo demoLib {} fireAndDelete "report" reportWorld tr P
    reportWorld_named (Pool.script_run _ .start hscript) none hs
  simp only at hgone
  rw [hgone] at hback
  cases hback

end OjsSqs
