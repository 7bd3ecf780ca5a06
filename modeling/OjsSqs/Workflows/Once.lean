import OjsSqs.Workflows.Groups
import OjsSqs.Workflows.Undisturbed

/-! # Each job counts once

The counters of a group count the ends of jobs, not jobs: a dead job that is
brought back can end again. As long as this happens to no job of the running
workflow, each job counts once, and the group runs until the last has ended. -/
namespace OjsSqs
open Calls

/-- The step leaves the workflow alone and cancels no job, but it may bring one back. -/
def SystemLabel.cancelsNone (wfID : String) (l : SystemLabel) : Bool :=
  l.leavesFlow wfID && (!l.mayDisturb || !l.revives.isEmpty)

/-- While the workflow runs, no dead job of it is brought back. -/
def RevivesNone (wfID : String) (w : World) (l : SystemLabel) : Prop :=
  w.flowRuns wfID → ∀ id ∈ l.revives, ∀ r, w.flowJob wfID id = some r → w.dead id = false

/-- All these jobs of the workflow have ended. -/
def AllEnded (wfID : String) (ids : List String) (w : World) : Prop :=
  ∀ id ∈ ids, ∃ r, w.flowJob wfID id = some r ∧ isTerminalState r.state = true

/-- A group that has counted no job twice. While it runs, the jobs it has counted are
those that have ended. -/
structure OnceIn (cfg : Config) (req : WorkflowRequest) (wfID : String) (ids : List String)
    (es : List Finish) (w : World) : Prop where
  group : GroupIn cfg req wfID ids es w
  once : (es.map (·.jobID)).Nodup
  ended : w.flowRuns wfID → EndedJobs wfID es w

section
variable {cfg : Config} {lib : CronLib} {ρ : Rules} {req : WorkflowRequest} {flow : Workflow}
  {wfID : String} {ids : List String} {es : List Finish} {w w₁ w' : World} {l : SystemLabel}
  {e : Finish} {r : JobRecord} {wf : WorkflowRecord}

theorem SparesJobs.of_revives (hl : l.cancelsNone wfID = true) (hrevives : RevivesNone wfID w l)
    (hruns : w.flowRuns wfID) : SparesJobs wfID w l := by
  obtain ⟨-, hl⟩ := Bool.and_eq_true_iff.mp hl
  rcases Bool.or_eq_true_iff.mp hl with hquiet | hsome
  · exact SystemLabel.spares_of_quiet (by simpa using hquiet)
  · have hnone : ∀ {P : String → Prop}, ∀ id ∈ ([] : List String), P id :=
      fun id hid => absurd hid List.not_mem_nil
    cases l with
    | env l => cases hsome
    | op o a =>
      cases o with
      | job o =>
        cases o with
        | retryDeadLetter id => exact ⟨rfl, hnone, hrevives hruns⟩
        | _ => cases hsome
      | _ => cases hsome

theorem OnceIn.stays (h : OnceIn cfg req wfID ids es w) (hf : FlowStays wfID w w')
    (hD : w.flowRuns wfID → FlowUndisturbed wfID w w') : OnceIn cfg req wfID ids es w' where
  group := h.group.stays hf
  once := h.once
  ended hruns := by
    have hruns : w.flowRuns wfID := by
      rw [World.flowRuns, ← hf.aside.record]
      exact hruns
    exact (h.ended hruns).stays hf (hD hruns) fun hnot => absurd hruns hnot

theorem OnceIn.moves (h : OnceIn cfg req wfID ids es w) (hm : FlowMoves cfg wfID e r wf w w₁ w')
    (hgroup : req.type ≠ "chain") (hid : wfID ≠ "") : OnceIn cfg req wfID ids (es ++ [e]) w' := by
  have hended := (h.ended hm.runs).moves hm
  exact ⟨h.group.moves hm hgroup hid, hended.once, fun _ => hended⟩

theorem OnceIn.stored (h : OnceIn cfg req wfID ids es w) : wfID ∈ w.store.workflows := by
  obtain ⟨wf, hwf, -⟩ := h.group.reckoned
  exact AList.lookup_isSome.mp (by rw [hwf]; rfl)

section
variable (hρ : ρ.faults = false)
include hρ

/-- **One step.** -/
theorem OnceIn.step (h : OnceIn cfg req wfID ids es w) (hg : Agrees cfg w) (hid : wfID ≠ "")
    (hgroup : req.type ≠ "chain") (hs : SystemStep cfg lib ρ w l w') (hl : l.cancelsNone wfID = true)
    (hrevives : RevivesNone wfID w l) : OnceIn cfg req wfID ids (es ++ flowNotes wfID w l) w' := by
  have hleaves := (Bool.and_eq_true_iff.mp hl).1
  rcases step_flow hρ hg hid (fun _ => h.stored) hs hleaves with ⟨hf, hnotes⟩ | ⟨e, r, wf, w₁, hm, hnotes⟩
  · rw [hnotes, List.append_nil]
    refine h.stays hf fun hruns => ?_
    exact step_undisturbed hρ hg hs (.of_revives hl hrevives hruns) (h.ended hruns).lasts
  · rw [hnotes]
    exact h.moves hm hgroup hid

/-- The group leaves its running state with the end of its last job. -/
theorem OnceIn.leaves (h : OnceIn cfg req wfID ids es w) (hg : Agrees cfg w) (hid : wfID ≠ "")
    (hgroup : req.type ≠ "chain") (hids : ids.Nodup) (hlen : ids.length = req.jobList.length)
    (hs : SystemStep cfg lib ρ w l w') (hl : l.cancelsNone wfID = true) (hruns : w.flowRuns wfID)
    (hover : ¬ w'.flowRuns wfID) : AllEnded wfID ids w' := by
  have hleaves := (Bool.and_eq_true_iff.mp hl).1
  rcases step_flow hρ hg hid (fun _ => h.stored) hs hleaves with ⟨hf, -⟩ | ⟨e, r, wf, w₁, hm, -⟩
  · rw [World.flowRuns, hf.aside.record] at hover
    exact absurd hruns hover
  · have hended := (h.ended hruns).moves hm
    exact ((h.group.moves hm hgroup hid).ends_iff hended hgroup hids hlen).mp hover

/-- An Ack or a Nack pushes callbacks only when all jobs have ended. -/
theorem OnceIn.reports (h : OnceIn cfg req wfID ids es w) (hg : Agrees cfg w) (hid : wfID ≠ "")
    (hbatch : req.type = "batch") (hids : ids.Nodup) (hlen : ids.length = req.jobList.length)
    (hs : SystemStep cfg lib ρ w l w') (hl : l.reports ids = true) (hnot : ¬ AllEnded wfID ids w') :
    PushesJobs cfg [] w w' := by
  have hgroup : req.type ≠ "chain" := by
    rw [hbatch]
    decide
  obtain ⟨hleaves, -⟩ := SystemLabel.reports_cases wfID hl
  rcases step_flow hρ hg hid (fun _ => h.stored) hs hleaves with ⟨-, hnotes⟩ | ⟨e, r, wf, w₁, hm, hnotes⟩
  · have hpushed := h.group.reports hρ hg hid hbatch hids hlen hs hl
      (by rw [hnotes, List.append_nil]; exact h.once)
    rw [hnotes, if_neg fun h => h.1 rfl] at hpushed
    exact hpushed
  · have hended := (h.ended hm.runs).moves hm
    have hI := h.group.moves hm hgroup hid
    have hpushed := h.group.reports hρ hg hid hbatch hids hlen hs hl (by rw [hnotes]; exact hended.once)
    rw [hnotes, if_neg] at hpushed
    · exact hpushed
    · rintro ⟨-, hall⟩
      refine hnot ((hI.ends_iff hended hgroup hids hlen).mp fun hruns => ?_)
      rw [hI.reckoned.runs_iff, ← Bool.not_eq_true] at hruns
      exact hruns ((isOver_iff_told hI.told hgroup hids hlen hended.once).mpr hall)

/-- **The run.** -/
theorem once_follows (h : Creates cfg lib ρ req flow w₁) (hgroup : req.type ≠ "chain")
    (h₀ : GroupIn cfg req flow.id ids [] w₁) {ls : List SystemLabel} {w : World} {es : List Finish}
    (hrun : Path (Noting (flowNotes flow.id) (Meeting
      (fun w l => l.cancelsNone flow.id = true ∧ RevivesNone flow.id w l) (SystemStep cfg lib ρ)))
      (w₁, []) ls (w, es)) : Agrees cfg w ∧ OnceIn cfg req flow.id ids es w := by
  obtain ⟨hid, -⟩ := h.stored hρ
  obtain ⟨w₀, hnew, hcreated⟩ := h.created hρ
  have h₁ : OnceIn cfg req flow.id ids [] w₁ :=
    ⟨h₀, List.nodup_nil, fun _ => hcreated.endedJobs hnew.jobs⟩
  refine hrun.keeps (I := fun x => Agrees cfg x.1 ∧ OnceIn cfg req flow.id ids x.2 x.1)
    ⟨h.agrees hρ, h₁⟩ ?_
  intro x l x' hI hstep
  obtain ⟨w, es⟩ := x
  obtain ⟨w', es'⟩ := x'
  obtain ⟨hg, hI⟩ := hI
  obtain ⟨⟨⟨hl, hrevives⟩, hs⟩, hes⟩ := hstep
  obtain rfl : es' = es ++ flowNotes flow.id w l := hes
  exact ⟨step_agrees hρ hg hs, hI.step hρ hg hid hgroup hs hl hrevives⟩

/-- A batch the first job of which is buried, and its run. -/
def deadBatch : WorkflowRequest :=
  { demoBatch with
    jobs := [{ demoStep "a" with retry := some { maxAttempts := 1, onExhaustion := "dead_letter" } },
      demoStep "b"] }
def buryFirst : SystemAct := .op (.job (.nack "j1" (some fatalError) false))
  [.ok, .tick 0, .ok, .ok, .ok, .ok, .ok, .ok, .ok, .ok, .ok, .ok]
def reviveFirst : SystemAct := .op (.job (.retryDeadLetter "j1"))
  [.ok, .tick 0, .ok, .ok, .ok, .ok, .ok, .ok, .ok]
def fetchRevived : SystemAct := .op (.job (.fetch 1 ["default"] 1 "w1" 0))
  [.tick 0, .ok, .ok, .deliver [2], .ok, .ok, .ok]
def ackRevived : SystemAct := .op (.job (.ack "j1" none))
  [.ok, .tick 0, .ok, .ok, .ok, .ok, .ok, .ok, .ok, .ok, .ok, .tick 0, .ok, .tick 0, .uuid "c1", .ok,
    .ok, .ok, .ok, .tick 0, .uuid "c2", .ok, .ok, .ok, .ok, .ok]

/-- **Each job of a group or batch counts once**, and the workflow leaves its running
state, and pushes callbacks, only when all jobs have ended: in every run in which
no dead job of the running workflow is brought back. -/
theorem group_counts_jobs_once (h : Creates cfg lib ρ req flow w₁) (hgroup : req.type ≠ "chain")
    (hjobs : req.jobList ≠ []) :
    ∃ ids : List String, ids.Nodup ∧ ids.length = req.jobList.length ∧
      (∀ id, (w₁.flowJob flow.id id).isSome ↔ id ∈ ids) ∧
      ∀ ls w es, Path (Noting (flowNotes flow.id) (Meeting
          (fun w l => l.cancelsNone flow.id = true ∧ RevivesNone flow.id w l) (SystemStep cfg lib ρ)))
          (w₁, []) ls (w, es) →
        (ReckonedAs req flow.id es w ∧ (es.map (·.jobID)).Nodup ∧ es.map (·.jobID) ⊆ ids) ∧
        ∀ l w', SystemStep cfg lib ρ w l w' → l.cancelsNone flow.id = true →
          (w.flowRuns flow.id → ¬ w'.flowRuns flow.id → AllEnded flow.id ids w') ∧
          (req.type = "batch" → l.reports ids = true → ¬ AllEnded flow.id ids w' →
            PushesJobs cfg [] w w') := by
  obtain ⟨ids, hids, hlen, h₀⟩ := h.groupIn hρ hgroup hjobs
  obtain ⟨hid, -⟩ := h.stored hρ
  refine ⟨ids, hids, hlen, h₀.members, fun ls w es hrun => ?_⟩
  obtain ⟨hg, hI⟩ := once_follows hρ h hgroup h₀ hrun
  refine ⟨⟨hI.group.reckoned, hI.once, hI.group.told⟩, fun l w' hs hl => ⟨?_, ?_⟩⟩
  · exact hI.leaves hρ hg hid hgroup hids hlen hs hl
  · exact fun hbatch hreports => hI.reports hρ hg hid hbatch hids hlen hs hreports

omit hρ in
/-- A batch whose first job is dead when it ends. The end of its second job ends the
batch. -/
theorem group_counts_jobs_once_dead : ∃ (flow : Workflow) (w₁ : World) (ls : List SystemLabel)
    (w : World) (l : SystemLabel) (w' : World), Path (SystemStep demo demoLib {}) w₁ ls w ∧
      w.dead "j1" = true ∧ SystemStep demo demoLib {} w l w' ∧ w.flowRuns flow.id ∧
      ¬ w'.flowRuns flow.id ∧ AllEnded flow.id ["j1", "j2"] w' := by
  have hok : ∀ x ∈ [fetchFirst, buryFirst, fetchSecond], ∀ w l w',
      x.run demo demoLib {} w = some (l, w') → l.cancelsNone "wf" = true ∧ RevivesNone "wf" w l := by
    intro x hx w l w' hr
    simp only [List.mem_cons, List.not_mem_nil, or_false] at hx
    rcases hx with rfl | rfl | rfl <;> obtain ⟨a, rfl, -⟩ := SystemAct.run_op hr
    all_goals exact ⟨rfl, fun _ id hmem => absurd hmem List.not_mem_nil⟩
  obtain ⟨flow, w₁, ls, w, es, hid, hcreates, hpath, hw⟩ := play_demo deadBatch bothJobs _
    (fun w₁ w _ => (["j1", "j2"].all (fun id => (w₁.flowJob "wf" id).isSome), w.dead "j1",
      decide (w.flowRuns "wf"), (discardSecond.run demo demoLib {} w).map
        fun y : SystemLabel × World => decide (y.2.flowRuns "wf")))
    (true, true, true, some false) rfl hok
  rw [← hid] at hw hpath
  obtain ⟨hstored, hw⟩ := Prod.mk.inj hw
  obtain ⟨hdead, hw⟩ := Prod.mk.inj hw
  obtain ⟨hruns, hlast⟩ := Prod.mk.inj hw
  obtain ⟨⟨l, w'⟩, hrun, hover⟩ := Option.map_eq_some_iff.mp hlast
  have hstep := SystemAct.run_step hrun
  obtain ⟨a, rfl, -⟩ := SystemAct.run_op hrun
  obtain ⟨ids, hids, hlen, hmembers, hall⟩ :=
    group_counts_jobs_once rfl hcreates (by decide) (by decide)
  obtain ⟨-, hsteps⟩ := hall ls w es hpath
  have hended := (hsteps _ w' hstep rfl).1 (of_decide_eq_true hruns) (of_decide_eq_false hover)
  refine ⟨flow, w₁, ls, w, _, w', hpath.unnoted.mono fun _ _ _ hs => hs.2, hdead, hstep,
    of_decide_eq_true hruns, of_decide_eq_false hover, fun id hid => ?_⟩
  exact hended id ((hmembers id).mp (List.all_eq_true.mp hstored id hid))

omit hρ in
/-- A dead job of the running batch is brought back and completed: it counts twice, and
the batch pushes its callbacks while the other job still waits. -/
theorem revived_job_counts_twice : ∃ (flow : Workflow) (w₁ : World) (ls : List SystemLabel) (w : World),
    Creates demo demoLib {} deadBatch flow w₁ ∧
    Path (Noting (flowNotes flow.id) (Meeting (fun _ l => l.cancelsNone flow.id = true)
      (SystemStep demo demoLib {}))) (w₁, []) ls (w, [⟨"j1", true, none⟩, ⟨"j1", false, none⟩]) ∧
    ¬ w.flowRuns flow.id ∧ (w.flowJob flow.id "j2").map (·.state) = some .available ∧
    (["c1", "c2"].map fun id => (w.store.jobs.lookup id).map (·.type)) =
      [some "done", some "failed"] := by
  have hok : ∀ x ∈ [fetchFirst, buryFirst, reviveFirst, fetchRevived, ackRevived], ∀ w l w',
      x.run demo demoLib {} w = some (l, w') → l.cancelsNone "wf" = true := by
    intro x hx w l w' hr
    simp only [List.mem_cons, List.not_mem_nil, or_false] at hx
    rcases hx with rfl | rfl | rfl | rfl | rfl <;> (obtain ⟨a, rfl, -⟩ := SystemAct.run_op hr; rfl)
  obtain ⟨flow, w₁, ls, w, es, hid, hcreates, hpath, hw⟩ := play_demo deadBatch bothJobs _
    (fun _ w es => (es, decide (w.flowRuns "wf"), (w.flowJob "wf" "j2").map (·.state),
      ["c1", "c2"].map fun id => (w.store.jobs.lookup id).map (·.type)))
    ([⟨"j1", true, none⟩, ⟨"j1", false, none⟩], false, some .available, [some "done", some "failed"])
    rfl hok
  rw [← hid] at hw hpath
  obtain ⟨hes, hw⟩ := Prod.mk.inj hw
  obtain ⟨hover, hw⟩ := Prod.mk.inj hw
  obtain ⟨hopen, hpushed⟩ := Prod.mk.inj hw
  subst hes
  exact ⟨flow, w₁, ls, w, hcreates, hpath, of_decide_eq_false hover, hopen, hpushed⟩

end
end
end OjsSqs
