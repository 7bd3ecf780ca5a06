import OjsSqs.Cron.Processes

/-! # The next run of a cron

`RegisterCron` computes the first run from the expression and the cron's time
zone, `FireCronJobs` every later one from the expression alone, which is then
read in the zone of the server. Along a run of the pool a stored `next_run_at` is
the one `RegisterCron` would compute as long as the crons that are fired are those
of the server's zone, or have an expression that brings its own. -/
namespace OjsSqs
open Calls

/-! ## Expressions and zones -/

/-- The expression names its zone. -/
def namesZone (expr : String) : Bool :=
  ["TZ=", "CRON_TZ="].any fun key => key.toList.isPrefixOf expr.toList

/-- The expression counts from the last run. -/
def isInterval (expr : String) : Bool := "@every ".toList.isPrefixOf expr.toList

/-- What the cron library says of its zones. A location is one that
`time.LoadLocation` has returned, and `Local` is the zone of the process. -/
structure CronLib.Documented (lib : CronLib) : Prop where
  /-- the prefix moves a schedule into the zone it names -/
  prefixed {timezone loc expr : String} {plain zoned : Schedule} :
    lib.loadLocation timezone = some loc → lib.parse expr = .ok plain →
    lib.parse ("CRON_TZ=" ++ loc ++ " " ++ expr) = .ok zoned →
    ∀ zone t, zoned.next zone t = plain.next (if loc = "Local" then zone else loc) t
  /-- there is one prefix only -/
  once {timezone loc expr : String} {zoned : Schedule} : lib.loadLocation timezone = some loc →
    namesZone expr = true → lib.parse ("CRON_TZ=" ++ loc ++ " " ++ expr) ≠ .ok zoned
  /-- intervals are the same everywhere -/
  interval {expr : String} {plain : Schedule} : isInterval expr = true →
    lib.parse expr = .ok plain → ∀ zone zone' t, plain.next zone t = plain.next zone' t

/-- The cron is one of the zone, or its expression brings its own. -/
def CronRecord.ofZone (lib : CronLib) (zone : String) (r : CronRecord) : Bool :=
  (lib.parse r.expression).isOk && (decide (r.timezone = "") ||
    (lib.loadLocation r.timezone).any fun loc => decide (loc = zone) || decide (loc = "Local") ||
      namesZone r.expression || isInterval r.expression)

/-- The schedules of such a cron, with its zone and without. -/
theorem CronRecord.ofZone_next {lib : CronLib} (hlib : lib.Documented) {zone : String}
    {r : CronRecord} (h : r.ofZone lib zone = true) :
    ∃ plain zoned, lib.parse r.expression = .ok plain ∧
      registeredSchedule lib r.timezone r.expression = .ok zoned ∧
      ∀ t, zoned.next zone t = plain.next zone t := by
  rw [CronRecord.ofZone, Bool.and_eq_true, Bool.or_eq_true, decide_eq_true_eq] at h
  obtain ⟨hparse, h⟩ := h
  obtain ⟨plain, hplain⟩ : ∃ plain, lib.parse r.expression = .ok plain := by
    cases hp : lib.parse r.expression with
    | ok plain => exact ⟨plain, rfl⟩
    | error msg =>
      rw [hp] at hparse
      cases hparse
  rcases h with hempty | h
  · refine ⟨plain, plain, hplain, ?_, fun _ => rfl⟩
    rw [registeredSchedule, if_pos hempty, hplain]
    rfl
  · obtain ⟨loc, hloc, h⟩ := (Option.any_eq_true _ _).mp h
    simp only [Bool.or_eq_true, decide_eq_true_eq] at h
    rw [registeredSchedule]
    split
    · refine ⟨plain, plain, hplain, ?_, fun _ => rfl⟩
      rw [hplain]
      rfl
    · rw [hloc]
      simp only [parseInZone]
      cases hz : lib.parse ("CRON_TZ=" ++ loc ++ " " ++ r.expression) with
      | error msg =>
        -- the expression is parsed without the prefix
        refine ⟨plain, plain, hplain, ?_, fun _ => rfl⟩
        rw [hplain]
        rfl
      | ok zoned =>
        refine ⟨plain, zoned, hplain, rfl, fun t => ?_⟩
        have hmoved := hlib.prefixed hloc hplain hz zone t
        rcases h with ((rfl | hlocal) | hown) | hevery
        · rw [hmoved, ite_self]
        · rw [hmoved, if_pos hlocal]
        · exact absurd hz (hlib.once hloc hown)
        · rw [hmoved, hlib.interval hevery hplain _ zone]

/-! ## What a trace says -/

/-- The instant a call of the clock has shown. -/
def clockShown {ι : Type} : Event ι Call Answer → Option Time
  | ⟨_, .proc .now, t⟩ => some t
  | _ => none

/-- The record a call writes as a cron. -/
def cronWritten {ι : Type} : Event ι Call Answer → Option CronRecord
  | ⟨_, .dynamo (.putCronItem r), _⟩ => some r
  | _ => none

variable {ι : Type} [DecidableEq ι]

/-- The clock of a thread: what it has read first. -/
def clockOf (tr : List (Event ι Call Answer)) (i : ι) : Option Time :=
  tr.findSome? fun e => if e.thread = i then clockShown e else none

theorem clockOf_append (tr : List (Event ι Call Answer)) (e : Event ι Call Answer) (i : ι) :
    clockOf (tr ++ [e]) i =
      (clockOf tr i).or (if e.thread = i then clockShown e else none) := by
  simp [clockOf, List.findSome?_append]

/-- The local time zone of a thread's process. -/
def CronOp.zone : CronOp → String
  | .fire zone => zone
  | .register zone _ => zone
  | .delete _ => ""

section
variable (cfg : Config) (lib : CronLib)

/-- The record's next run is the one `RegisterCron` computes at `now`. -/
def OnTime (zone : String) (now : Time) (r : CronRecord) : Prop :=
  match registeredSchedule lib r.timezone r.expression with
  | .ok schedule => r.nextRunAt = cfg.formatTime (schedule.next zone now)
  | .error _ => False

/-- A process that fires writes back crons of its zone. -/
def FiresInZone (op : ι → CronOp) (_ : List (Event ι Call Answer)) (_ : World)
    (e : Event ι Call Answer) : Prop :=
  match op e.thread, cronWritten e with
  | .fire zone, some r => r.ofZone lib zone = true
  | _, _ => True

instance (op : ι → CronOp) (tr : List (Event ι Call Answer)) (w : World)
    (e : Event ι Call Answer) : Decidable (FiresInZone lib op tr w e) := by
  unfold FiresInZone
  split <;> infer_instance

/-- Every record that was written was on time at the clock of its thread. -/
def OnSchedule (op : ι → CronOp) (tr : List (Event ι Call Answer)) : Prop :=
  ∀ before e after r, tr = before ++ e :: after → cronWritten e = some r →
    ∃ now, clockOf before e.thread = some now ∧ OnTime cfg lib (op e.thread).zone now r

/-- The monitor of a thread knows the thread's clock. -/
def Firing.clocked (clock : Option Time) : Firing → Prop
  | .start | .listed _ => clock = none
  | .turn now _ _ _ => clock = some now

end

/-! ## One step -/

section
variable {cfg : Config} {lib : CronLib} {op : ι → CronOp} {tr : List (Event ι Call Answer)}
  {w w' : World} {t : ι → Firing} {i : ι} {c : Call} {r : Answer c}

theorem OnSchedule.append (h : OnSchedule cfg lib op tr) {e : Event ι Call Answer}
    (he : ∀ r, cronWritten e = some r →
      ∃ now, clockOf tr e.thread = some now ∧ OnTime cfg lib (op e.thread).zone now r) :
    OnSchedule cfg lib op (tr ++ [e]) := by
  intro before e' after r hsplit hr
  rcases List.eq_nil_or_concat after with rfl | ⟨after', last, rfl⟩
  · obtain ⟨rfl, he'⟩ := List.append_inj' hsplit rfl
    obtain rfl := List.singleton_inj.mp he'
    exact he r hr
  · rw [List.concat_eq_append, ← List.cons_append, ← List.append_assoc] at hsplit
    obtain ⟨rfl, -⟩ := List.append_inj' hsplit rfl
    exact h before e' after' r rfl hr

omit [DecidableEq ι] in
/-- What a thread writes is on time where its condition is met. -/
theorem written_onTime (hlib : lib.Documented) {o : CronOp} {now : Time} {crons : List CronRecord}
    {lock : Option (String × Int)} {spent : Bool} {x : CronRecord}
    (ha : (o.monitor cfg lib).allow (.turn now crons lock spent) (.dynamo (.putCronItem x)))
    (hok : ∀ zone, o = .fire zone → x.ofZone lib zone = true) :
    OnTime cfg lib o.zone now x := by
  cases o with
  | delete name => rcases ha with ha | ha <;> cases ha
  | register zone cronJob =>
    obtain ⟨schedule, hs, hx⟩ := ha
    cases hx
    show OnTime cfg lib zone now ((cronJob.registered cfg now (schedule.next zone now)).record lib)
    have hs' : registeredSchedule lib
        ((cronJob.registered cfg now (schedule.next zone now)).record lib).timezone
        ((cronJob.registered cfg now (schedule.next zone now)).record lib).expression =
        .ok schedule := hs
    rw [OnTime, hs']
    rfl
  | fire zone =>
    obtain ⟨cron, -, hx⟩ := ha
    obtain ⟨plain, zoned, hplain, hzoned, hsame⟩ := CronRecord.ofZone_next hlib (hok zone rfl)
    rw [WritesBack] at hx
    cases hp : lib.parse cron.expression with
    | error msg =>
      rw [hp] at hx
      subst hx
      rw [show lib.parse ({ cron with lastRunAt := cfg.formatTime now } : CronRecord).expression =
        .error msg from hp] at hplain
      cases hplain
    | ok schedule =>
      rw [hp] at hx
      subst hx
      obtain rfl : schedule = plain := Except.ok.inj (hp.symm.trans hplain)
      show OnTime cfg lib zone now (cron.ran cfg schedule zone now)
      rw [OnTime, hzoned]
      exact congrArg cfg.formatTime (hsame now).symm

omit [DecidableEq ι] in
/-- A call of a thread's monitor keeps its clock known. -/
theorem clocked_next {o : CronOp} {clock : Option Time} {s : Firing}
    (h : s.clocked clock) (ha : (o.monitor cfg lib).allow s c) :
    ((o.monitor cfg lib).next s c r).clocked (clock.or (clockShown (⟨i, c, r⟩ : Event ι Call Answer))) := by
  cases o with
  | delete name =>
    rcases ha with rfl | rfl <;> (rw [show clockShown _ = none from rfl, Option.or_none]; exact h)
  | register zone cronJob =>
    cases s with
    | start =>
      subst ha
      rw [show clock = none from h]
      rfl
    | listed crons => exact ha.elim
    | turn now crons lock spent =>
      rw [show clock = some now from h, Option.some_or]
      rfl
  | fire zone =>
    cases s with
    | start =>
      subst ha
      rw [show clock = none from h]
      rcases r with e | crons <;> rfl
    | listed crons =>
      subst ha
      rw [show clock = none from h]
      rfl
    | turn now crons lock spent =>
      rw [show clock = some now from h, Option.some_or]
      cases c with
      | dynamo d => cases d <;> first | rfl | (rcases r with e | u <;> rfl)
      | sqs c => rfl
      | proc c => rfl

end

/-! ## The theorem -/

/-- **The schedule.** As long as every process fires crons of its own zone, or
whose expressions bring theirs, every `next_run_at` ever stored is the next run
`RegisterCron` computes. -/
theorem crons_on_schedule {cfg : Config} {lib : CronLib} (hlib : lib.Documented) {ρ : Rules}
    {op : ι → CronOp} {w : World} {tr : List (Event ι Call Answer)} {P : Pool ι World Call Answer Unit}
    (hr : Pool.Run ρ.skewed (FiresInZone lib op) ⟨w, fun i => (op i).prog cfg lib⟩ tr P) :
    OnSchedule cfg lib op tr := by
  refine (hr.invariant (m := fun i => (op i).monitor cfg lib) (s := fun _ => .start)
    (fun tr w t => OnSchedule cfg lib op tr ∧ ∀ i, (t i).clocked (clockOf tr i))
    (fun i => CronOp.conforms cfg lib (op i)) ⟨?_, fun _ => rfl⟩ ?_).1.1
  · intro before e after r h
    cases before <;> cases h
  · rintro tr w t i c r w' ⟨hs, hclock⟩ ha _ hok
    refine ⟨hs.append fun x hx => ?_, fun j => ?_⟩
    · cases c with
      | dynamo d =>
        cases d with
        | putCronItem y =>
          obtain rfl : y = x := Option.some.inj hx
          cases hti : t i with
          | start =>
            rw [hti] at ha
            cases ho : op i with
            | delete name => rw [ho] at ha; rcases ha with ha | ha <;> cases ha
            | register zone cronJob => rw [ho] at ha; cases ha
            | fire zone => rw [ho] at ha; cases ha
          | listed crons =>
            rw [hti] at ha
            cases ho : op i with
            | delete name => rw [ho] at ha; rcases ha with ha | ha <;> cases ha
            | register zone cronJob => rw [ho] at ha; cases ha
            | fire zone => rw [ho] at ha; cases ha
          | turn now crons lock spent =>
            have hnow := hclock i
            rw [hti] at ha hnow
            refine ⟨now, hnow, written_onTime hlib ha fun zone hz => ?_⟩
            simp only [FiresInZone, hz, cronWritten] at hok
            exact hok
        | _ => cases hx
      | sqs c => cases hx
      | proc c => cases hx
    · rw [clockOf_append]
      by_cases hj : j = i
      · subst hj
        rw [if_pos rfl, Monitor.track, Function.update_self]
        exact clocked_next (hclock j) ha
      · rw [if_neg (Ne.symm hj), Option.or_none, Monitor.track, Function.update_of_ne hj]
        exact hclock j

/-! ## One run in Tokyo, and one elsewhere -/

/-- The run of a process that fires the report on the second day. -/
def reportFires : List (Unit × Choice) :=
  let choices : List Choice := [.page ["report"], .tick (24 * hour), .tick (24 * hour), .ok]
  (choices ++ reportRun (24 * hour)).map fun ch => ((), ch)

def reportPool (zone : String) : Pool Unit World Call Answer Unit :=
  ⟨reportWorld, fun _ => CronOp.prog cronDemo demoLib (.fire zone)⟩

/-- The next run a trace has written last. -/
def lastNextRun (tr : List (Event Unit Call Answer)) : Option String :=
  (tr.getLast?.bind cronWritten).map (·.nextRunAt)

theorem demoLib_documented : demoLib.Documented := by
  have hloc : ∀ {timezone loc : String}, demoLib.loadLocation timezone = some loc →
      loc = "Asia/Tokyo" := by
    intro timezone loc h
    obtain ⟨hname, h⟩ := Option.ite_none_right_eq_some.mp h
    exact (Option.some.inj h).symm.trans hname
  have hparse : ∀ {spec : String} {schedule : Schedule}, demoLib.parse spec = .ok schedule →
      spec = "0 9 * * *" ∧ schedule = ⟨fun zone => nextNine (zoneAhead zone)⟩ ∨
        spec = "CRON_TZ=Asia/Tokyo 0 9 * * *" ∧ schedule = ⟨fun _ => nextNine (9 * hour)⟩ := by
    intro spec schedule h
    simp only [demoLib] at h
    split at h
    · exact .inl ⟨‹_›, (Except.ok.inj h).symm⟩
    · split at h
      · exact .inr ⟨‹_›, (Except.ok.inj h).symm⟩
      · cases h
  -- a spec with the prefix is the one of the runs
  have hprefix : ∀ {expr : String} {schedule : Schedule},
      demoLib.parse ("CRON_TZ=" ++ "Asia/Tokyo" ++ " " ++ expr) = .ok schedule →
      expr = "0 9 * * *" ∧ schedule = ⟨fun _ => nextNine (9 * hour)⟩ := by
    intro expr schedule h
    rcases hparse h with ⟨hspec, -⟩ | ⟨hspec, rfl⟩
    · have hlist := congrArg String.toList hspec
      rw [String.toList_append] at hlist
      cases hlist
    · exact ⟨String.append_right_inj _ |>.mp (hspec.trans (by decide)), rfl⟩
  refine ⟨fun htz hp hz zone t => ?_, fun htz hown hz => ?_, fun hevery hp => ?_⟩
  · obtain rfl := hloc htz
    obtain ⟨rfl, rfl⟩ := hprefix hz
    obtain rfl := Except.ok.inj hp
    rfl
  · obtain rfl := hloc htz
    obtain ⟨rfl, -⟩ := hprefix hz
    cases hown
  · rcases hparse hp with ⟨rfl, -⟩ | ⟨rfl, -⟩ <;> cases hevery

/-- Where the server's own zone is the cron's, the next run is right. -/
theorem crons_on_schedule_tokyo : ∃ tr : List (Event Unit Call Answer),
    lastNextRun tr = some "1970-01-03T00:00:00.000Z" ∧
      OnSchedule cronDemo demoLib (fun _ : Unit => .fire "Asia/Tokyo") tr := by
  have hrun : ∃ out, Pool.script (Rules.skewedAct {})
      (FiresInZone demoLib fun _ => .fire "Asia/Tokyo") [] reportFires
      (reportPool "Asia/Tokyo") = some out ∧
      lastNextRun out.1 = some "1970-01-03T00:00:00.000Z" := ⟨_, rfl, rfl⟩
  obtain ⟨⟨tr, P⟩, hscript, hlast⟩ := hrun
  exact ⟨tr, hlast, @crons_on_schedule _ _ _ _ demoLib_documented _ (fun _ => .fire "Asia/Tokyo") _ _ _
    (Pool.script_run reportFires .start hscript)⟩

/-- Elsewhere nine o'clock becomes the server's nine o'clock. -/
theorem fire_forgets_zone : ¬ ∀ (cfg : Config) (lib : CronLib) (ρ : Rules) (op : Unit → CronOp)
    (w : World) (tr : List (Event Unit Call Answer)) (P : Pool Unit World Call Answer Unit),
    lib.Documented → Pool.Run ρ.skewed Pool.anyStep ⟨w, fun i => (op i).prog cfg lib⟩ tr P →
    OnSchedule cfg lib op tr := by
  intro hall
  have hrun : ∃ out, Pool.script (Rules.skewedAct {}) Pool.anyStep [] reportFires
      (reportPool "UTC") = some out ∧
      lastNextRun out.1 = some "1970-01-02T09:00:00.000Z" ∧
      clockOf out.1.dropLast () = some (24 * hour) ∧
      ((out.1.getLast?.bind cronWritten).map fun r => (r.timezone, r.expression)) =
        some ("Asia/Tokyo", "0 9 * * *") := ⟨_, rfl, rfl, rfl, rfl⟩
  obtain ⟨⟨tr, P⟩, hscript, hlast, hclock, hzone⟩ := hrun
  have hs := hall cronDemo demoLib {} (fun _ => .fire "UTC") reportWorld tr P demoLib_documented
    (Pool.script_run reportFires .start hscript)
  obtain ⟨r, hr, hnext⟩ := Option.map_eq_some_iff.mp hlast
  obtain ⟨e, he, hwrite⟩ := Option.bind_eq_some_iff.mp hr
  simp only [hr, Option.map_some, Option.some.injEq, Prod.mk.injEq] at hzone
  obtain ⟨now, hnow, htime⟩ := hs tr.dropLast e [] r
    (List.dropLast_append_getLast? e he).symm hwrite
  have hnow' : now = 24 * hour := Option.some.inj (hnow.symm.trans hclock)
  rw [OnTime, hzone.1, hzone.2, hnow', hnext] at htime
  have hwrong : "1970-01-02T09:00:00.000Z" ≠ "1970-01-03T00:00:00.000Z" := by decide
  exact hwrong htime

end OjsSqs
