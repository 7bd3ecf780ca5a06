import OjsSqs.Atomic.Methods
import OjsSqs.Cron.Processes
import OjsSqs.System.Operations
import OjsSqs.Workers.Visibility

/-! # Directives of workers

A heartbeat puts the worker's item before it reads the directive from it, so
that it finds none. What it returns then comes from the jobs. -/
namespace OjsSqs
open Calls

/-- The directive in the metadata of the stored jobs; `continue` without one. -/
def jobsDirective (unmarshal : MetaDecoder) (s : Store) (ids : List String) : String :=
  (ids.findSome? fun id => (s.jobs.lookup id).bind (testDirective unmarshal)).getD "continue"

section
variable {cfg : Config} {unmarshal : MetaDecoder} {ρ : Rules}

theorem wp_metaDirective (hρ : ρ.faults = false) (ids : List String) (w : World) :
    wp ρ.env.every (metaDirective unmarshal ids)
      (fun d _ => d = jobsDirective unmarshal w.store ids) w := by
  induction ids with
  | nil => rfl
  | cons id ids ih =>
    rw [metaDirective, wp_bind]
    cases hr : w.store.jobs.lookup id with
    | none =>
      rw [wp_getJob_none hρ hr]
      simp only [jobsDirective, List.findSome?_cons, hr, Option.bind_none] at ih ⊢
      exact ih
    | some r =>
      rw [wp_getJob_some hρ hr]
      simp only [jobsDirective, List.findSome?_cons, hr, Option.bind_some] at ih ⊢
      cases hd : testDirective unmarshal r with
      | none => exact ih
      | some d => rfl

/-- The jobs are not written by a heartbeat. -/
theorem wp_heartbeatJobs_store (ids : List String) (ms : Int) (w : World) :
    wp ρ.env.every (heartbeatJobs cfg ids ms) (fun _ w' => w'.store = w.store) w := by
  refine (extendJobs_calls cfg _ ids).keeps (fun w' : World => w'.store = w.store)
    (fun c w₁ a w₂ hc hs he => ?_) rfl
  refine Eq.trans ?_ hs
  by_cases hd : ∃ d, c = .dynamo d
  · obtain ⟨d, rfl⟩ := hd
    obtain ⟨ch, s', -, hact, rfl⟩ := Rules.env_dynamo he
    cases d with
    | getJobItem id =>
      cases ch <;> simp only [Store.act, Store.run, Option.some.injEq, Prod.mk.injEq,
        reduceCtorEq] at hact <;> exact hact.2.symm
    | _ => cases hc
  · exact Rules.env_aside (fun d hc => hd ⟨d, hc⟩) he

/-- What a heartbeat puts holds no directive. -/
theorem heartbeatData_directive (now : Time) (ids : List String) :
    (heartbeatData cfg now ids).lookup "directive" = none := by
  rw [heartbeatData, AList.lookup_insert_ne (by decide)]
  rfl

/-- **The directive of a heartbeat**, whatever an operator has set. -/
theorem wp_heartbeat_directive (hρ : ρ.faults = false) (workerID : String) (ids : List String)
    (ms : Int) (s : World × Table WorkerItem) :
    wp (Env.beside ρ.env WorkerCall.env).every (heartbeat cfg unmarshal workerID ids ms)
      (fun a _ => a.directive = jobsDirective unmarshal s.1.store ids) s := by
  rw [heartbeat, wp_bind, wp_inl]
  refine wp_timeNow fun now _ => ?_
  rw [putWorker, wp_bind, wp_bind, workerCall, wp_inr]
  rintro r v ⟨rfl, rfl⟩
  simp only [wp_pure]
  rw [wp_bind, wp_inl]
  refine wp_mono (Env.every_mono _) _ (wp_heartbeatJobs_store ids ms _) fun _ w' hstore => ?_
  rw [wp_bind, heartbeatDirective, wp_bind, getWorkerDirective, wp_bind, workerCall, wp_inr]
  rintro r v ⟨rfl, rfl⟩
  have hnone : ((heartbeatData cfg now ids).lookup "directive").getD "" = "" := by
    rw [heartbeatData_directive]
    rfl
  simp only [WorkerCall.run, AList.lookup_insert, hnone, wp_pure]
  rw [directiveOf, if_pos rfl, if_pos rfl, wp_inl]
  refine wp_mono (Env.every_mono _) _ (wp_metaDirective hρ ids _) fun d _ hd => ?_
  rw [hd, hstore]
  rfl

end

/-! ## Runs -/

/-- The calls for workers, among the other steps of the system. -/
inductive WorkerLabel where
  | setWorkerState (workerID state : String) (a : Except Error Unit)
  | heartbeat (workerID : String) (activeJobs : List String) (visibilityTimeoutMs : Int)
      (a : HeartbeatResponse)
  | system (l : SystemLabel)

inductive WorkerStep (cfg : Config) (lib : CronLib) (unmarshal : MetaDecoder) (ρ : Rules) :
    World × Table WorkerItem → WorkerLabel → World × Table WorkerItem → Prop
  | setWorkerState {s s' : World × Table WorkerItem} {workerID state : String}
      {a : Except Error Unit} :
      Runs (Env.beside ρ.env WorkerCall.env) (OjsSqs.setWorkerState workerID state) s a s' →
      WorkerStep cfg lib unmarshal ρ s (.setWorkerState workerID state a) s'
  | heartbeat {s s' : World × Table WorkerItem} {workerID : String} {activeJobs : List String}
      {visibilityTimeoutMs : Int} {a : HeartbeatResponse} :
      Runs (Env.beside ρ.env WorkerCall.env)
        (OjsSqs.heartbeat cfg unmarshal workerID activeJobs visibilityTimeoutMs) s a s' →
      WorkerStep cfg lib unmarshal ρ s (.heartbeat workerID activeJobs visibilityTimeoutMs a) s'
  | system {w w' : World} {v : Table WorkerItem} {l : SystemLabel} :
      SystemStep cfg lib ρ w l w' → WorkerStep cfg lib unmarshal ρ (w, v) (.system l) (w', v)

/-- What a call sets for the worker. -/
def WorkerLabel.sets (workerID : String) : WorkerLabel → Option String
  | .setWorkerState w d _ => if w = workerID then some d else none
  | _ => none

/-- The directive that was set last. -/
def lastDirective (workerID : String) (ls : List WorkerLabel) : Option String :=
  (ls.filterMap (WorkerLabel.sets workerID)).getLast?

/-- The response carries the directive that is set, if one is. -/
def CarriesSet (ls : List WorkerLabel) (workerID directive : String) : Prop :=
  ∀ d, lastDirective workerID ls = some d → d ≠ "" → directive = d

section
variable {cfg : Config} {lib : CronLib} {unmarshal : MetaDecoder} {ρ : Rules}

/-- **Directives.** After any calls a heartbeat carries the directive that is set
exactly when the metadata of its jobs asks for the same. -/
theorem heartbeat_carries (hρ : ρ.faults = false) {ls : List WorkerLabel}
    {s s' : World × Table WorkerItem} {workerID : String} {ids : List String} {ms : Int}
    {a : HeartbeatResponse} (h : WorkerStep cfg lib unmarshal ρ s (.heartbeat workerID ids ms a) s') :
    CarriesSet ls workerID a.directive ↔
      CarriesSet ls workerID (jobsDirective unmarshal s.1.store ids) := by
  cases h with
  | heartbeat hr =>
    have hd := (wp_iff_runs _ _ _ _).mp (wp_heartbeat_directive hρ workerID ids ms s) a s' hr
    rw [hd]

end

/-! ## An operator's quiet -/

/-- The state after `SetWorkerState("w1", "quiet")`. -/
def quietState : World × Table WorkerItem :=
  (.start 0, AList.singleton "w1" (AList.singleton "directive" "quiet"))

def quietLabels : List WorkerLabel := [.setWorkerState "w1" "quiet" (.ok ())]

/-- The environment of the run. -/
def quietEnv := Env.beside (Rules.env {}) WorkerCall.env

theorem quiet_path (lib : CronLib) :
    Path (WorkerStep demo lib noMeta {}) (.start 0, ∅) quietLabels quietState := by
  have hset : quietEnv (.inr (.setDirectiveItem "w1" "quiet")) (.start 0, ∅) (.ok ()) quietState :=
    ⟨⟨rfl, rfl⟩, rfl⟩
  exact .single (.setWorkerState (.call hset .pure))

/-- What the next heartbeat returns, without jobs. -/
def quietResponse : HeartbeatResponse where
  state := "active"
  directive := "continue"
  jobsExtended := []
  serverTime := demoTime 0

theorem quiet_heartbeat (lib : CronLib) : ∃ s, WorkerStep demo lib noMeta {} quietState
    (.heartbeat "w1" [] 30000 quietResponse) s := by
  let item : WorkerItem := heartbeatData demo 0 []
  let s : World × Table WorkerItem := (.start 0, quietState.2.insert "w1" item)
  have hnow : quietEnv (.inl (.proc .now)) quietState (0 : Time) quietState := ⟨⟨.tick 0, rfl⟩, rfl⟩
  have hput : quietEnv (.inr (.putWorkerItem "w1" item)) quietState (.ok ()) s :=
    ⟨⟨rfl, rfl⟩, rfl⟩
  have hget : quietEnv (.inr (.getWorkerItem "w1")) s (.ok (some item)) s := ⟨⟨rfl, rfl⟩, rfl⟩
  exact ⟨s, .heartbeat (.call hnow (.call hput (.call hget .pure)))⟩

theorem heartbeat_carries_quiet : ¬ CarriesSet quietLabels "w1" quietResponse.directive := by
  obtain ⟨s, hs⟩ := quiet_heartbeat demoLib
  rw [heartbeat_carries rfl hs]
  exact fun h => absurd (h "quiet" rfl (by decide)) (by decide)

/-- The directive of the operator is lost. -/
theorem heartbeat_loses_quiet : ∃ ls s s' a,
    Path (WorkerStep demo demoLib noMeta {}) (.start 0, ∅) ls s ∧
    WorkerStep demo demoLib noMeta {} s (.heartbeat "w1" [] 30000 a) s' ∧
    lastDirective "w1" ls = some "quiet" ∧ a.directive = "continue" := by
  obtain ⟨s, hs⟩ := quiet_heartbeat demoLib
  exact ⟨quietLabels, quietState, s, quietResponse, quiet_path demoLib, hs, rfl, rfl⟩

end OjsSqs
