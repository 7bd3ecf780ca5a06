import OjsSqs.Cron.Overlap
import OjsSqs.System.Invariant

/-! # A cron that skips has one job

The runs of `FireCronJobs` take their calls in any order, and between the calls
workers fetch the jobs, acknowledge them and let them fail, and promoters bring
them back. Of the jobs of a cron with the policy `skip` at most one is not done. -/
namespace OjsSqs
open Calls

/-! ## Names -/

section
variable {cfg : Config} {lib : CronLib} {ρ : Rules} {w w' : World}

theorem Rules.env_namedCrons {c : Call} {a : Answer c} (he : ρ.env c w a w')
    (h : w.NamedCrons) : w'.NamedCrons := by
  cases c with
  | dynamo d =>
    have hs : ρ.skewed (.dynamo d) w a w' := by
      obtain ⟨ch, he⟩ := he
      exact ⟨ch, by cases ch <;> exact he⟩
    exact Rules.skewed_named hs h
  | sqs c =>
    obtain ⟨_, _, -, -, rfl⟩ := Rules.env_sqs he
    exact h
  | proc c =>
    intro n x hx
    rw [Rules.env_proc_store he] at hx
    exact h n x hx

theorem runs_namedCrons {α : Type} {p : M α} {a : α} (h : Runs ρ.env p w a w')
    (hn : w.NamedCrons) : w'.NamedCrons := by
  induction h with
  | pure => exact hn
  | call he _ ih => exact ih (Rules.env_namedCrons he hn)

/-- The crons are always stored under their names. -/
theorem step_namedCrons {l : SystemLabel} (hs : SystemStep cfg lib ρ w l w')
    (hn : w.NamedCrons) : w'.NamedCrons := by
  cases hs with
  | op o a hfresh hdone hr => exact runs_namedCrons hr hn
  | env l hop hs =>
    cases hs with
    | op o a => cases hop
    | expireVisibility m => exact hn
    | ensureDLQ queue url _ hr => exact runs_namedCrons hr hn
    | tick t _ => exact hn
    | expireKey fp item _ _ => exact hn

theorem run_namedCrons {t : Time} {ls : List SystemLabel} (h : SystemRun cfg lib ρ t ls w) :
    w.NamedCrons :=
  h.keeps (I := World.NamedCrons) (fun n x hx => by cases hx) fun _ _ _ hn hs =>
    step_namedCrons hs hn

end

/-! ## The crew -/

section
variable {ι : Type} [DecidableEq ι]

/-- A step of the crew: a call of one of the runs of `FireCronJobs`, or an
operation on jobs, which is atomic. -/
inductive CrewStep (cfg : Config) (lib : CronLib) (ρ : Rules) :
    Pool ι World Call Answer Unit → Event ι Call Answer ⊕ SystemLabel →
      Pool ι World Call Answer Unit → Prop
  | call {P P' : Pool ι World Call Answer Unit} {e : Event ι Call Answer} :
      StoresUnused P.world e.call → Pool.Step ρ.skewed P e P' → CrewStep cfg lib ρ P (.inl e) P'
  | tend {P : Pool ι World Call Answer Unit} {l : SystemLabel} {w' : World} :
      l.tends = true → SystemStep cfg lib ρ P.world l w' →
      CrewStep cfg lib ρ P (.inr l) { P with world := w' }

namespace Births

/-- What the observer has written down after the steps of the crew. -/
def after (steps : List (Event ι Call Answer ⊕ SystemLabel)) : Births ι :=
  steps.foldl (fun b step => step.elim b.note fun _ => b) empty

theorem after_call (steps : List (Event ι Call Answer ⊕ SystemLabel)) (e : Event ι Call Answer) :
    after (steps ++ [.inl e]) = (after steps).note e := by
  simp [after]

theorem after_tend (steps : List (Event ι Call Answer ⊕ SystemLabel)) (l : SystemLabel) :
    after (steps ++ [.inr l]) = after steps := by
  simp [after]

end Births

variable {cfg : Config} {lib : CronLib} {ρ : Rules} {w : World} {name : String}
  {record : CronRecord}

/-- At most one job of the cron is live, and the runs are where the monitors
have them. -/
def Tended (cfg : Config) (lib : CronLib) (name : String)
    (steps : List (Event ι Call Answer ⊕ SystemLabel)) (P : Pool ι World Call Answer Unit) : Prop :=
  ∃ record t, KeepsOne cfg lib name record (Births.after steps) P.world t ∧
    ∀ i, (turning cfg lib).Conforms (P.thread i) (t i)

theorem tended_step {P P' : Pool ι World Call Answer Unit}
    {steps : List (Event ι Call Answer ⊕ SystemLabel)} {l : Event ι Call Answer ⊕ SystemLabel}
    (hρ : ρ.faults = false) (h : Tended cfg lib name steps P) (hs : CrewStep cfg lib ρ P l P') :
    Tended cfg lib name (steps ++ [l]) P' := by
  obtain ⟨record, t, hone, hconf⟩ := h
  cases hs with
  | call hn hstep =>
    obtain ⟨ha, he, hconf'⟩ := hstep.conforms (m := fun _ => turning cfg lib) hconf
    obtain ⟨record', hone'⟩ := hone.call ha hn he
    rw [Tended, Births.after_call]
    exact ⟨record', _, hone', hconf'⟩
  | tend hl hstep =>
    rw [Tended, Births.after_tend]
    exact ⟨record, t, hone.tend hρ hl hstep, hconf⟩

omit [DecidableEq ι] in
theorem keepsOne_start (hg : Agrees cfg w) (hn : w.NamedCrons)
    (hrecord : w.store.crons.lookup name = some record) (hskip : record.overlapPolicy = "skip") :
    KeepsOne cfg lib name record (Births.empty : Births ι) w fun _ => .start where
  outgoing := ⟨hg, fun _ _ _ ⟨_, _, h⟩ => (by cases h), fun _ _ _ _ _ _ ⟨_, _, h⟩ => (by cases h)⟩
  exclusive := ⟨hn, hrecord, hskip, fun _ _ h => absurd h List.not_mem_nil,
    fun _ _ ⟨_, _, h⟩ => (by cases h), fun _ _ _ _ ⟨_, _, h⟩ => (by cases h)⟩
  locked _ _ _ _ h := by cases h
  born _ h := absurd h List.not_mem_nil
  knows _ _ := fun ⟨_, _, h⟩ => (by cases h)
  quiet _ := .inl fun _ h => absurd h.1 List.not_mem_nil

/-- **A cron that skips has one job.** From the state in which a cron with the
policy `skip` is stored, any number of runs of `FireCronJobs` and operations on
the jobs go on in any order: of the jobs the runs have stored for the cron, at
most one is not in a terminal state. -/
theorem skip_keeps_one {zone : ι → String} {t : Time} {ls : List SystemLabel}
    {steps : List (Event ι Call Answer ⊕ SystemLabel)} {P : Pool ι World Call Answer Unit}
    (hρ : ρ.faults = false) (hw : SystemRun cfg lib ρ t ls w)
    (hrecord : w.store.crons.lookup name = some record) (hskip : record.overlapPolicy = "skip")
    (hr : Path (CrewStep cfg lib ρ) ⟨w, fun i => (CronOp.fire (zone i)).prog cfg lib⟩ steps P) :
    ((Births.after steps).live name P.world).Subsingleton := by
  have hstart : Tended cfg lib name [] ⟨w, fun i => (CronOp.fire (zone i)).prog cfg lib⟩ :=
    ⟨record, fun _ => .start, keepsOne_start (run_agrees hρ hw) (run_namedCrons hw) hrecord hskip,
      fun _ => turning_fireCronJobs⟩
  obtain ⟨_, _, hone, -⟩ := hr.invariant (I := Tended cfg lib name) hstart
    fun _ _ _ _ h hs => tended_step hρ h hs
  exact hone.one

end

/-! ## Scripts of the crew -/

/-- A step of the crew with the choices the environment makes in it. -/
inductive CrewAct (ι : Type) where
  | call (i : ι) (ch : Choice)
  | tend (x : SystemAct)

namespace CrewAct

variable {ι : Type} [DecidableEq ι]

section
variable (cfg : Config) (lib : CronLib) (ρ : Rules)

def run : CrewAct ι → Pool ι World Call Answer Unit →
    Option ((Event ι Call Answer ⊕ SystemLabel) × Pool ι World Call Answer Unit)
  | .call i ch, P => match P.thread i with
    | .pure _ => none
    | .call c k => match ρ.skewedAct ch c P.world with
      | none => none
      | some (a, w') =>
        if StoresUnused P.world c then
          some (.inl ⟨i, c, a⟩, ⟨w', Function.update P.thread i (k a)⟩)
        else none
  | .tend x, P => match x.run cfg lib ρ P.world with
    | none => none
    | some (l, w') => if l.tends then some (.inr l, { P with world := w' }) else none

/-- The steps the acts take, and the crew after them. -/
def play : List (CrewAct ι) → Pool ι World Call Answer Unit →
    Option (List (Event ι Call Answer ⊕ SystemLabel) × Pool ι World Call Answer Unit)
  | [], P => some ([], P)
  | x :: xs, P => match x.run cfg lib ρ P with
    | none => none
    | some (step, P') => (play xs P').map fun (steps, P'') => (step :: steps, P'')

end

variable {cfg : Config} {lib : CronLib} {ρ : Rules} {P P' : Pool ι World Call Answer Unit}

theorem run_step {x : CrewAct ι} {step : Event ι Call Answer ⊕ SystemLabel}
    (h : x.run cfg lib ρ P = some (step, P')) : CrewStep cfg lib ρ P step P' := by
  cases x with
  | call i ch =>
    simp only [run] at h
    split at h
    · cases h
    · rename_i c k hc
      split at h
      · cases h
      · rename_i a w' he
        obtain ⟨hn, h⟩ := Option.ite_none_right_eq_some.mp h
        cases h
        exact .call hn (.call hc ⟨ch, he⟩)
  | tend x =>
    simp only [run] at h
    split at h
    · cases h
    · rename_i l w' hr
      obtain ⟨hl, h⟩ := Option.ite_none_right_eq_some.mp h
      cases h
      exact .tend hl (SystemAct.run_step hr)

theorem play_path {xs : List (CrewAct ι)} {steps : List (Event ι Call Answer ⊕ SystemLabel)}
    (h : play cfg lib ρ xs P = some (steps, P')) : Path (CrewStep cfg lib ρ) P steps P' := by
  induction xs generalizing P steps with
  | nil =>
    cases h
    exact .nil
  | cons x xs ih =>
    simp only [play] at h
    split at h
    · cases h
    · rename_i step P₁ hr
      obtain ⟨⟨rest, P₂⟩, hp, h⟩ := Option.map_eq_some_iff.mp h
      cases h
      exact (Path.single (run_step hr)).append (ih hp)

end CrewAct

/-! ## A report that skips -/

/-- Nine o'clock on the first days. -/
def nines : List (String × Time) :=
  [("1970-01-01T09:00:00.000Z", 9 * hour), ("1970-01-02T09:00:00.000Z", 33 * hour),
    ("1970-01-03T09:00:00.000Z", 57 * hour), ("1970-01-04T09:00:00.000Z", 81 * hour)]

def ninesDemo : Config :=
  { demo with
    formatTime := fun t => ((nines.find? fun e => e.2 = t).map (·.1)).getD ""
    parseRFC3339 := fun s => (nines.find? fun e => e.1 = s).map (·.2) }

def skipReport : CronJob := { report with timezone := "", overlapPolicy := "skip" }

/-- The calls of a run up to the lock, at `t`. -/
def untilLock (t : Time) : List Choice := [.page ["report"], .tick t, .tick t, .ok]

/-- The rest of a run that skips, after the instance and its job. -/
def skippedReport : List Choice := [.ok, .ok, .ok]

/-- The first run up to its message, and the rest of the last run. -/
def firstReport : List Choice :=
  [.ok, .tick (9 * hour), .uuid "r1", .ok, .ok, .ok, .ok, .ok, .ok, .ok]
def lastReport : List Choice :=
  [.ok, .ok, .tick (57 * hour), .uuid "r2", .ok, .ok, .ok, .ok, .ok, .ok]

/-- The first job is fetched before its run has kept it as the instance, and
completed after the second run. -/
def fetchReport : SystemAct := .op (.job (.fetch 1 ["default"] 1 "w1" 0))
  [.tick (9 * hour), .ok, .ok, .deliver [0], .ok, .ok, .ok]
def ackReport : SystemAct := .op (.job (.ack "r1" none))
  [.ok, .tick (33 * hour), .ok, .ok, .ok, .ok, .ok, .ok, .ok]

/-- Three runs on three days, and a fourth one that lists the cron with the
first and is too late for its lock. -/
def crewActs : List (CrewAct (Fin 4)) :=
  [.call 3 (.page ["report"])] ++ (untilLock (9 * hour) ++ firstReport).map (.call 0) ++
  [.tend fetchReport, .call 3 (.tick (33 * hour)), .call 3 (.tick (33 * hour)), .call 3 .ok] ++
  [.call 0 .ok, .call 0 .ok] ++ (untilLock (33 * hour) ++ skippedReport).map (.call 1) ++
  [.tend ackReport] ++ (untilLock (57 * hour) ++ lastReport).map (.call 2)

/-- Two jobs of the report are stored, and only the second one is live. -/
theorem skip_keeps_one_report : ∃ (steps : List (Event (Fin 4) Call Answer ⊕ SystemLabel))
    (P : Pool (Fin 4) World Call Answer Unit),
    (Births.after steps).created "report" = ["r2", "r1"] ∧ Live "r2" P.world ∧
      ((Births.after steps).live "report" P.world).Subsingleton := by
  obtain ⟨⟨ls, w⟩, record, hplay, hrecord, hskip, ⟨steps, P⟩, hcrew, hcreated, r, hr, hlive⟩ :
      ∃ (out : List SystemLabel × World) (record : CronRecord),
        SystemAct.play ninesDemo demoLib {} [.op (.registerCron "UTC" skipReport) [.tick 0, .ok]]
          (.start 0) = some out ∧ out.2.store.crons.lookup "report" = some record ∧
        record.overlapPolicy = "skip" ∧ ∃ crew, CrewAct.play ninesDemo demoLib {} crewActs
          ⟨out.2, fun _ => (CronOp.fire "UTC").prog ninesDemo demoLib⟩ = some crew ∧
        (Births.after crew.1).created "report" = ["r2", "r1"] ∧
        ∃ r, crew.2.world.store.jobs.lookup "r2" = some r ∧ isTerminalState r.state = false :=
    ⟨_, _, rfl, rfl, rfl, _, rfl, rfl, _, rfl, rfl⟩
  have hpath : Path (Meeting (fun _ _ => True) (SystemStep ninesDemo demoLib {})) (.start 0) ls w :=
    SystemAct.play_path hplay fun _ _ _ _ _ _ => trivial
  have hrun : SystemRun ninesDemo demoLib {} 0 ls w := hpath.mono fun _ _ _ => And.right
  exact ⟨steps, P, hcreated, ⟨r, hr, hlive⟩,
    skip_keeps_one rfl hrun hrecord hskip (CrewAct.play_path hcrew)⟩

end OjsSqs
