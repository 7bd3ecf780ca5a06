import OjsSqs.Cron.Processes
import OjsSqs.Fetching.Hidden
import OjsSqs.Grpc.Policies
import OjsSqs.System.Invariant

/-! # The counter of a stream

`StreamJobs` counts the jobs it has sent and fetches as many as are missing to
its maximum. Other calls end the jobs, and the counter does not hear of it. -/
namespace OjsSqs
open Calls

/-! ## The loop -/

structure StreamJobsRequest where
  queues : List String
  workerID : String
  maxConcurrent : Int
deriving DecidableEq, Repr

namespace StreamJobsRequest

/-- Why the request is refused as an invalid argument. -/
def refusal (req : StreamJobsRequest) : Option String :=
  if req.queues = [] then some "at least one queue is required"
  else if req.workerID = "" then some "worker_id is required"
  else none

/-- `maxConcurrent` in the loop -/
def limit (req : StreamJobsRequest) : Int :=
  if req.maxConcurrent ≤ 0 then 1 else req.maxConcurrent

theorem limit_pos (req : StreamJobsRequest) : 0 < req.limit := by
  rw [limit]
  split <;> omega

end StreamJobsRequest

section
variable {P : ProtoLib} (cfg : Config) (send : Proto.Job P → Bool)

/-- What a tick leaves: the counter, the jobs that were sent, and whether a Send
failed, which ends the stream. -/
structure StreamTick where
  active : Int
  sent : List Job
  failed : Bool

def sendJobs (active : Int) : List Job → StreamTick
  | [] => ⟨active, [], false⟩
  | j :: jobs =>
    if send (jobToProto cfg j) then
      let rest := sendJobs (active + 1) jobs
      { rest with sent := j :: rest.sent }
    else ⟨active, [], true⟩

/-- One tick. `none` when `fuel` receives were not enough for the Fetch. -/
def streamTick (fuel : Nat) (req : StreamJobsRequest) (active : Int) : M (Option StreamTick) := do
  if req.limit ≤ active then return some ⟨active, [], false⟩
  else
    let count := req.limit - active
    let jobs ← fetch cfg fuel req.queues count req.workerID cfg.defaultVisibilityTimeoutMs
    return jobs.map (sendJobs cfg send active)

/-- When no Send fails, all jobs are sent and counted. -/
theorem sendJobs_all {active : Int} {jobs : List Job} (h : (sendJobs cfg send active jobs).failed = false) :
    (sendJobs cfg send active jobs).sent = jobs ∧
      (sendJobs cfg send active jobs).active = active + jobs.length := by
  induction jobs generalizing active with
  | nil => exact ⟨rfl, (Int.add_zero active).symm⟩
  | cons j jobs ih =>
    rw [sendJobs] at h ⊢
    split at h
    · rename_i hs
      obtain ⟨hsent, hactive⟩ := ih h
      rw [if_pos hs]
      refine ⟨congrArg (j :: ·) hsent, hactive.trans ?_⟩
      rw [List.length_cons]
      omega
    · cases h

end

/-! ## Runs -/

/-- A stream and the system around it. -/
structure Stream where
  world : World
  active : Int := 0
  delivered : List Job := []

inductive StreamLabel where
  | tick (t : StreamTick)
  | other (l : SystemLabel)

/-- A tick of the stream all of whose Sends succeed, or any step of the rest. -/
inductive StreamStep (P : ProtoLib) (cfg : Config) (lib : CronLib) (ρ : Rules) (req : StreamJobsRequest) :
    Stream → StreamLabel → Stream → Prop
  | tick {s : Stream} {w' : World} (send : Proto.Job P → Bool) (fuel : Nat) (t : StreamTick) :
      t.failed = false →
      Runs (ρ.reserving s.world.store.workflows.keys).env (streamTick cfg send fuel req s.active)
        s.world (some t) w' →
      StreamStep P cfg lib ρ req s (.tick t) ⟨w', t.active, s.delivered ++ t.sent⟩
  | other {s : Stream} {w' : World} (l : SystemLabel) : SystemStep cfg lib ρ s.world l w' →
      StreamStep P cfg lib ρ req s (.other l) { s with world := w' }

/-- The job is stored as active. -/
def World.holdsActive (w : World) (id : String) : Bool :=
  (w.store.jobs.lookup id).any (·.state = .active)

/-- The jobs delivered on the stream that are still active. -/
def Stream.unfinished (s : Stream) : List String :=
  (s.delivered.map (·.id)).dedup.filter s.world.holdsActive

/-- The counter is the number of unfinished jobs: there are not more of them than
the stream asked for, and a tick fetches while there are less. -/
structure StreamCounts (P : ProtoLib) (cfg : Config) (req : StreamJobsRequest) (s : Stream) : Prop where
  counter : s.active = s.unfinished.length
  bounded : (s.unfinished.length : Int) ≤ req.limit
  fetches : (s.unfinished.length : Int) < req.limit → ∀ (send : Proto.Job P → Bool) fuel,
    streamTick cfg send fuel req s.active =
      fetch cfg fuel req.queues (req.limit - s.active) req.workerID cfg.defaultVisibilityTimeoutMs >>=
        fun jobs => pure (jobs.map (sendJobs cfg send s.active))

/-- The step does not disturb the stream's jobs. When a tick fetches, none of them
can be received again, and no job has two messages, as failing calls may bring
about. Every other step leaves them active. -/
def Undisturbed (cfg : Config) (ρ : Rules) (req : StreamJobsRequest) (s s' : Stream) :
    StreamLabel → Prop
  | .tick _ => s.active < req.limit → (ρ.faults = true → s.world.sqs.OneEach) ∧
      ∀ job ∈ s.delivered, OutOfSight cfg ρ req.queues job.id s.world
  | .other _ => ∀ job ∈ s.delivered, s'.world.holdsActive job.id = true

/-- A step of the stream that does not disturb its jobs. -/
def QuietStep (P : ProtoLib) (cfg : Config) (lib : CronLib) (ρ : Rules) (req : StreamJobsRequest)
    (s : Stream) (l : StreamLabel) (s' : Stream) : Prop :=
  StreamStep P cfg lib ρ req s l s' ∧ Undisturbed cfg ρ req s s' l

/-! ## What the loop keeps -/

section
variable {cfg : Config} {lib : CronLib} {ρ : Rules} {w w' : World}

/-- **Every step keeps the tables tidy**, whatever fails. -/
theorem Tidy.step {l : SystemLabel} (h : Tidy w) (hs : SystemStep cfg lib ρ w l w') : Tidy w' := by
  cases hs with
  | op o a _ _ hr => exact h.runs hr
  | env l hl hs =>
    cases hs with
    | op o a => cases hl
    | expireVisibility id =>
      exact ⟨SqsState.Sound.map h.sqs fun m => SqsState.same_expired id m, h.named⟩
    | ensureDLQ queue url _ hr =>
      have hw : Tidy { w with background := w.background.erase (queue, url) } := ⟨h.sqs, h.named⟩
      exact hw.runs hr
    | tick t _ => exact h.setClock t
    | expireKey fp item _ _ => exact ⟨h.sqs, h.named⟩

theorem Agrees.oneEach (hg : Agrees cfg w) : w.sqs.OneEach := by
  intro id
  cases hr : w.store.jobs.lookup id with
  | none =>
    have hnone : w.sqs.messagesOf id = [] := (Good.unknown hg id hr).messages
    rw [hnone]
    exact Nat.zero_le 1
  | some r => exact (Good.fits hg id r hr).messages.trans (maxMessages_le _ _)

end

/-- What holds of a stream whose jobs are not disturbed: it has delivered as many
jobs as it counts, each of them once, and they are all active. -/
structure Streaming (cfg : Config) (ρ : Rules) (req : StreamJobsRequest) (s : Stream) : Prop where
  tidy : Tidy s.world
  agrees : ρ.faults = false → Agrees cfg s.world
  counter : s.active = s.delivered.length
  nodup : (s.delivered.map (·.id)).Nodup
  live : ∀ job ∈ s.delivered, s.world.holdsActive job.id = true
  bounded : s.active ≤ req.limit

section
variable {P : ProtoLib} {cfg : Config} {lib : CronLib} {ρ : Rules} {req : StreamJobsRequest}
  {s s' : Stream}

theorem streaming_start (t : Time) : Streaming cfg ρ req { world := .start t } := by
  have hg : Agrees cfg (.start t) := good_start t
  exact ⟨Good.tidy hg, fun _ => hg, rfl, List.nodup_nil, fun _ hj => (by cases hj), req.limit_pos.le⟩

/-- The jobs that are delivered are the unfinished ones, so their number is the
counter. -/
theorem Streaming.counts (h : Streaming cfg ρ req s) : StreamCounts P cfg req s := by
  have hall : s.unfinished = s.delivered.map (·.id) := by
    rw [Stream.unfinished, h.nodup.dedup, List.filter_eq_self]
    intro id hid
    obtain ⟨job, hj, rfl⟩ := List.mem_map.mp hid
    exact h.live job hj
  have hlen : (s.unfinished.length : Int) = s.active := by
    rw [hall, List.length_map, h.counter]
  refine ⟨hlen.symm, hlen.trans_le h.bounded, fun hless send fuel => ?_⟩
  rw [streamTick, if_neg (by omega)]

/-- What a Fetch of the missing jobs adds. -/
theorem Streaming.fetch (lib : CronLib) (h : Streaming cfg ρ req s) (hmore : s.active < req.limit)
    (hvis : 0 < visTimeoutSec cfg cfg.defaultVisibilityTimeoutMs)
    (hone : ρ.faults = true → s.world.sqs.OneEach)
    (hout : ∀ job ∈ s.delivered, OutOfSight cfg ρ req.queues job.id s.world)
    {fuel : Nat} {jobs : List Job} {w' : World}
    (hr : Runs (ρ.reserving s.world.store.workflows.keys).env
      (fetch cfg fuel req.queues (req.limit - s.active) req.workerID cfg.defaultVisibilityTimeoutMs)
      s.world (some jobs) w') :
    Streaming cfg ρ req ⟨w', s.active + jobs.length, s.delivered ++ jobs⟩ := by
  have hstocked : Stocked s.world := by
    refine ⟨h.tidy.sqs, h.tidy.named, ?_⟩
    cases hρ : ρ.faults with
    | true => exact hone hρ
    | false => exact (h.agrees hρ).oneEach
  have hresult := (wp_iff_runs _ _ _ _).mp
    (fetch_result hvis (show 1 ≤ req.limit - s.active by omega) hstocked fuel) _ w' hr jobs rfl
  have hleft : ∀ job ∈ s.delivered, LeftOut cfg job.id s.world w' ∧ ∀ j ∈ jobs, j.id ≠ job.id := by
    intro job hj
    have hhidden : OutOfSight cfg (ρ.reserving s.world.store.workflows.keys) req.queues job.id
        s.world := hout job hj
    have hspared := (wp_iff_runs _ _ _ _).mp (fetch_leavesOut h.tidy hhidden) _ w' hr
    exact ⟨hspared.1, hspared.2 jobs rfl⟩
  refine ⟨h.tidy.runs hr, fun hρ => ?_, ?_, ?_, fun job hj => ?_, ?_⟩
  · let o : SystemOp := .job (.fetch fuel req.queues (req.limit - s.active) req.workerID
      cfg.defaultVisibilityTimeoutMs)
    have hfresh : o.Fresh s.world := ⟨List.nodup_nil, fun _ hid => (by cases hid)⟩
    have hstep : SystemStep cfg lib ρ s.world (.op o (some jobs)) w' := .op o _ hfresh rfl hr
    exact step_agrees hρ (h.agrees hρ) hstep
  · rw [List.length_append, h.counter]
    push_cast
    rfl
  · rw [List.map_append, List.nodup_append]
    refine ⟨h.nodup, hresult.nodup, fun i hi i' hi' he => ?_⟩
    obtain ⟨job, hj, rfl⟩ := List.mem_map.mp hi
    obtain ⟨j, hj', rfl⟩ := List.mem_map.mp hi'
    exact (hleft job hj).2 j hj' he.symm
  · rcases List.mem_append.mp hj with hj | hj
    · have hlive := h.live job hj
      rw [World.holdsActive] at hlive ⊢
      rw [(hleft job hj).1.job]
      exact hlive
    · obtain ⟨r, m, hgiven⟩ := hresult.handed job hj
      rw [World.holdsActive, hgiven.stored]
      exact decide_eq_true hgiven.state
  · have hlen := hresult.length
    simp only
    omega

/-- **One step.** -/
theorem Streaming.step (h : Streaming cfg ρ req s)
    (hvis : 0 < visTimeoutSec cfg cfg.defaultVisibilityTimeoutMs) {l : StreamLabel}
    (hs : QuietStep P cfg lib ρ req s l s') : Streaming cfg ρ req s' := by
  obtain ⟨hs, hquiet⟩ := hs
  cases hs with
  | tick send fuel t hok hr =>
    have hwp : wp (ρ.reserving s.world.store.workflows.keys).env.every
        (streamTick cfg send fuel req s.active) (fun a w' => ∀ t, a = some t → t.failed = false →
          Streaming cfg ρ req ⟨w', t.active, s.delivered ++ t.sent⟩) s.world := by
      rw [streamTick, wp_ite]
      split
      · -- the counter is at the maximum, and the tick is skipped
        rintro t ⟨⟩ -
        rw [List.append_nil]
        exact h
      · rename_i hmore
        have hmore : s.active < req.limit := by omega
        obtain ⟨hone, hout⟩ := hquiet hmore
        rw [wp_bind]
        refine (wp_iff_runs _ _ _ _).mpr fun a w₁ hf t ht hsends => ?_
        cases a with
        | none => cases ht
        | some jobs =>
          cases ht
          obtain ⟨hsent, hactive⟩ := sendJobs_all cfg send hsends
          rw [hsent, hactive]
          exact h.fetch lib hmore hvis hone hout hf
    exact (wp_iff_runs _ _ _ _).mp hwp _ _ hr t rfl hok
  | other l hs =>
    exact ⟨h.tidy.step hs, fun hρ => step_agrees hρ (h.agrees hρ) hs, h.counter, h.nodup, hquiet,
      h.bounded⟩

/-- **The counter.** On every run of a stream whose steps do not disturb its jobs,
the counter is the number of its unfinished jobs. -/
theorem stream_counts (P : ProtoLib) (cfg : Config) (lib : CronLib) (ρ : Rules)
    (req : StreamJobsRequest) (t : Time)
    (hvis : 0 < visTimeoutSec cfg cfg.defaultVisibilityTimeoutMs) {ls : List StreamLabel} {s : Stream}
    (h : Path (QuietStep P cfg lib ρ req) { world := .start t } ls s) : StreamCounts P cfg req s :=
  (h.keeps (streaming_start t) fun _ _ _ hI hs => hI.step hvis hs).counts

end

/-! ## One job at a time -/

def ackDemo : SystemAct := .op (.job (.ack "j1" none)) [.ok, .tick 0, .ok, .ok, .ok, .ok, .ok, .ok, .ok]

/-- A stream of one job at a time. -/
def oneAtATime : StreamJobsRequest := ⟨["default"], "w1", 1⟩

/-- A tick with the choices the environment makes in it. -/
def tickDemo (active : Int) (choices : List Choice) (w : World) : Option (StreamTick × World) :=
  match script (({} : Rules).reserving w.store.workflows.keys).act choices
      (streamTick demo (fun _ : Proto.Job demoProto => true) 1 oneAtATime active) w with
  | some (some t, w') => some (t, w')
  | _ => none

theorem tickDemo_step {s : Stream} {choices : List Choice} {t : StreamTick} {w' : World}
    (h : tickDemo s.active choices s.world = some (t, w')) (hsends : t.failed = false) :
    StreamStep demoProto demo demoLib {} oneAtATime s (.tick t) ⟨w', t.active, s.delivered ++ t.sent⟩ := by
  rw [tickDemo] at h
  split at h
  · rename_i t₁ w₁ hs
    cases h
    exact .tick (fun _ => true) 1 _ hsends (script_runs _ hs)
  · cases h

def streamPush : SystemAct := .op (.job (.push demoJob)) [.tick 0, .ok, .ok, .ok, .ok, .ok, .ok, .ok]

/-- The tick finds the job that was pushed. -/
def findsJob : List Choice := [.tick 0, .ok, .ok, .deliver [0], .ok, .ok, .ok]

/-- A second job waits, and the next tick is skipped. -/
def secondPush : SystemAct := .op (.job (.push { demoJob with id := "j2" }))
  [.tick 0, .ok, .ok, .ok, .ok]

theorem stream_counts_one : ∃ l t l' t' s, Path (QuietStep demoProto demo demoLib {} oneAtATime)
    { world := .start 0 } [.other l, .tick t, .other l', .tick t'] s ∧ t.sent.map (·.id) = ["j1"] ∧
      t'.sent = [] ∧ s.active = 1 ∧ s.unfinished.length = 1 ∧
      StreamCounts demoProto demo oneAtATime s := by
  have hrun : ((streamPush.run demo demoLib {} (.start 0)).bind fun (_, w) =>
      (tickDemo 0 findsJob w).bind fun (t, w₁) => (secondPush.run demo demoLib {} w₁).bind fun (_, w₂) =>
        (tickDemo 1 [] w₂).map fun (t', _) => (t.active, t.failed, t.sent.map (·.id),
          w₂.holdsActive "j1", t'.active, t'.failed, t'.sent.map (·.id))) =
      some (1, false, ["j1"], true, 1, false, []) := rfl
  obtain ⟨⟨l, w⟩, hpush, hrun⟩ := Option.bind_eq_some_iff.mp hrun
  obtain ⟨⟨t, w₁⟩, htick, hrun⟩ := Option.bind_eq_some_iff.mp hrun
  obtain ⟨⟨l', w₂⟩, hpush', hrun⟩ := Option.bind_eq_some_iff.mp hrun
  obtain ⟨⟨t', w₃⟩, htick', hend⟩ := Option.map_eq_some_iff.mp hrun
  obtain ⟨hactive, hend⟩ := Prod.mk.inj hend
  obtain ⟨hsends, hend⟩ := Prod.mk.inj hend
  obtain ⟨hsent, hend⟩ := Prod.mk.inj hend
  obtain ⟨hholds, hend⟩ := Prod.mk.inj hend
  obtain ⟨hactive', hend⟩ := Prod.mk.inj hend
  obtain ⟨hsends', hsent'⟩ := Prod.mk.inj hend
  have hactive : t.active = 1 := hactive
  have hactive' : t'.active = 1 := hactive'
  have hsent' : t'.sent = [] := List.map_eq_nil_iff.mp hsent'
  have hfirst : QuietStep demoProto demo demoLib {} oneAtATime { world := .start 0 } (.other l)
      { world := w } := ⟨.other l (SystemAct.run_step hpush), fun _ hj => (by cases hj)⟩
  have hsecond : QuietStep demoProto demo demoLib {} oneAtATime { world := w } (.tick t)
      ⟨w₁, t.active, [] ++ t.sent⟩ := by
    refine ⟨tickDemo_step (s := { world := w }) htick hsends, fun _ => ⟨fun hf => ?_, fun _ hj => ?_⟩⟩
    · cases hf
    · cases hj
  have hthird : QuietStep demoProto demo demoLib {} oneAtATime ⟨w₁, t.active, [] ++ t.sent⟩ (.other l')
      ⟨w₂, t.active, [] ++ t.sent⟩ := by
    refine ⟨.other l' (SystemAct.run_step hpush'), fun job hjob => ?_⟩
    have hid : job.id ∈ ["j1"] := hsent ▸ List.mem_map_of_mem (f := (·.id)) hjob
    rw [List.mem_singleton.mp hid]
    exact hholds
  have hfourth : QuietStep demoProto demo demoLib {} oneAtATime ⟨w₂, t.active, [] ++ t.sent⟩ (.tick t')
      ⟨w₃, t'.active, [] ++ t.sent ++ t'.sent⟩ := by
    refine ⟨tickDemo_step (s := ⟨w₂, t.active, [] ++ t.sent⟩) (by rw [hactive]; exact htick') hsends',
      fun hlimit => ?_⟩
    have hlimit : t.active < 1 := hlimit
    rw [hactive] at hlimit
    exact absurd hlimit (by decide)
  have hpath := (((Path.single hfirst).snoc hsecond).snoc hthird).snoc hfourth
  have hcounts := stream_counts demoProto demo demoLib {} oneAtATime 0 (by decide) hpath
  refine ⟨l, t, l', t', _, hpath, hsent, hsent', hactive', ?_, hcounts⟩
  have hcounter : (1 : Int) = _ := hactive'.symm.trans hcounts.counter
  exact (Int.ofNat.inj hcounter).symm

/-- The Ack of the job ends it, and the stream fetches nothing any more. -/
theorem ack_stops_stream : ¬ ∀ (P : ProtoLib) (cfg : Config) (lib : CronLib) (ρ : Rules)
    (req : StreamJobsRequest) (t : Time) (ls : List StreamLabel) (s : Stream),
    1 ≤ req.maxConcurrent → 0 < visTimeoutSec cfg cfg.defaultVisibilityTimeoutMs →
    Path (StreamStep P cfg lib ρ req) { world := .start t } ls s → StreamCounts P cfg req s := by
  intro h
  have hrun : ((streamPush.run demo demoLib {} (.start 0)).bind fun (_, w) =>
      (tickDemo 0 findsJob w).bind fun (t, w₁) => (ackDemo.run demo demoLib {} w₁).map fun (_, w₂) =>
        (t.failed, t.active, t.sent.map (·.id), demoState w₂)) =
      some (false, 1, ["j1"], some .completed) := rfl
  obtain ⟨⟨l, w⟩, hpush, hrun⟩ := Option.bind_eq_some_iff.mp hrun
  obtain ⟨⟨t, w₁⟩, htick, hrun⟩ := Option.bind_eq_some_iff.mp hrun
  obtain ⟨⟨l', w₂⟩, hack, hend⟩ := Option.map_eq_some_iff.mp hrun
  obtain ⟨hsends, hend⟩ := Prod.mk.inj hend
  obtain ⟨hactive, hend⟩ := Prod.mk.inj hend
  obtain ⟨hsent, hstate⟩ := Prod.mk.inj hend
  have hpath : Path (StreamStep demoProto demo demoLib {} oneAtATime) { world := .start 0 }
      [.other l, .tick t, .other l'] ⟨w₂, t.active, [] ++ t.sent⟩ :=
    ((Path.single (.other l (SystemAct.run_step hpush))).snoc
      (tickDemo_step (s := { world := w }) htick hsends)).snoc
        (.other (s := ⟨w₁, t.active, [] ++ t.sent⟩) l' (SystemAct.run_step hack))
  have hcounts := (h demoProto demo demoLib {} oneAtATime 0 _ _ (by decide) (by decide) hpath).counter
  have hone : t.active = 1 := hactive
  have hnone : (⟨w₂, t.active, [] ++ t.sent⟩ : Stream).unfinished = [] := by
    have hids : ([] ++ t.sent).map Job.id = ["j1"] := hsent
    have hlook : w₂.holdsActive "j1" = false := by
      obtain ⟨r, hr, hdone⟩ := Option.map_eq_some_iff.mp hstate
      rw [World.holdsActive, hr]
      exact decide_eq_false fun he => by rw [hdone] at he; cases he
    rw [Stream.unfinished, hids]
    simp [hlook]
  rw [hnone, hone] at hcounts
  cases hcounts

end OjsSqs
