import OjsSqs.Delays.Runs
import OjsSqs.Failures.Counting
import OjsSqs.Grpc.Policies
import OjsSqs.System.Pushing

/-! # The attempts of a job enqueued over gRPC

The limit of attempts travels in the retry policy. Nack reads the one of the
record, which the converter leaves unset. -/
namespace OjsSqs
open Calls

/-! ## The job that Enqueue creates -/

section
variable {cfg : Config} {ρ : Rules} (hρ : ρ.faults = false) {w : World}
include hρ

/-- A Push that creates a job ends with the store of a job that has the same
limits. -/
theorem push_creates {job : Job} (hn : w.NamedJobs)
    (hfresh : job.id = "" ∨ w.store.jobs.lookup job.id = none) :
    wp ρ.env.every (push cfg job) (fun a w' => ∀ j, a = .ok j → w.store.jobs.lookup j.id = none →
      w'.store.jobs.lookup j.id = some (jobToRecord j) ∧ j.retry = job.retry ∧
        j.maxAttempts = job.maxAttempts) w := by
  refine wp_push_new hρ hn hfresh fun new now w₁ hretry hmax _ _ => ?_
  rw [wp_pushNew hρ]
  intro j hj
  obtain rfl : j = newJob cfg now new := by
    rw [pushAnswer] at hj
    split at hj
    · exact (Except.ok.inj hj).symm
    · split at hj
      · cases hj
      · exact (Except.ok.inj hj).symm
  refine ⟨?_, ?_, ?_⟩
  · rw [pushed_jobs, newJob_id]
    exact AList.lookup_insert _
  · rw [← hretry, newJob]
    split <;> rfl
  · rw [← hmax, newJob]
    split <;> rfl

end

/-! ## The outcomes of its failures -/

/-- The state the step leaves the job in, when it is a failure of the job. -/
def outcomeIn (id : String) (l : SystemLabel) (w' : World) : List JobState :=
  match failureOf id l with
  | some _ => ((w'.store.jobs.lookup id).map (·.state)).toList
  | none => []

/-- The steps of the system, with the outcomes of the job's failures so far. -/
def Watching (cfg : Config) (lib : CronLib) (ρ : Rules) (id : String) :
    World × List JobState → SystemLabel → World × List JobState → Prop :=
  fun x l y => ¬ Restarts id l ∧ SystemStep cfg lib ρ x.1 l y.1 ∧ y.2 = x.2 ++ outcomeIn id l y.1

/-- What a limit of `m` attempts asks for. -/
def expectedOutcomes (m : Int) : List JobState :=
  List.replicate (m - 1).toNat .retryable ++ [.discarded]

theorem length_expectedOutcomes {m : Int} (hm : 1 ≤ m) :
    ((expectedOutcomes m).length : Int) = m := by
  rw [expectedOutcomes, List.length_append, List.length_replicate, List.length_singleton]
  omega

/-- One outcome more. -/
theorem take_expectedOutcomes {m : Int} {n : Nat} (hn : (n : Int) + 1 ≤ m) :
    (expectedOutcomes m).take (n + 1) = (expectedOutcomes m).take n ++
      [if (n : Int) + 1 < m then .retryable else .discarded] := by
  rw [List.take_add_one, expectedOutcomes]
  split
  · rw [List.getElem?_append_left (by rw [List.length_replicate]; omega),
      List.getElem?_replicate_of_lt (by omega)]
    rfl
  · rw [List.getElem?_append_right (by rw [List.length_replicate]; omega), List.length_replicate,
      show n - (m - 1).toNat = 0 by omega]
    rfl

/-- The outcomes of one limit are those of another one, as far as either goes,
only if it is the same limit. -/
theorem take_expectedOutcomes_iff {m m' : Int} {n : Nat} (hm : 1 ≤ m) (hm' : 1 ≤ m')
    (hn : (n : Int) ≤ m') (hle : min m m' ≤ n) :
    (expectedOutcomes m').take n = expectedOutcomes m ↔ m = m' := by
  have hlen := length_expectedOutcomes hm
  have hlen' := length_expectedOutcomes hm'
  constructor
  · intro h
    have htake := congrArg List.length h
    rw [List.length_take] at htake
    by_contra hne
    -- before the last attempt there is no discard
    have hmem : JobState.discarded ∈ (expectedOutcomes m').take n := by
      rw [h, expectedOutcomes]
      exact List.mem_append_right _ List.mem_cons_self
    rw [expectedOutcomes, List.take_append_of_le_length (by rw [List.length_replicate]; omega)] at hmem
    cases List.eq_of_mem_replicate (List.mem_of_mem_take hmem)
  · rintro rfl
    exact List.take_of_length_le (by omega)

theorem outcomeOf_retryable {cfg : Config} {r : JobRecord} {fs : List (Option JobError)}
    {e : Option JobError} (he : isNonRetryable cfg e r.retry.unmarshal = false) :
    outcomeOf cfg r fs e =
      if (fs.length : Int) + 1 < maxAttemptsOf r then .retryable else .discarded := by
  simp only [outcomeOf, he, and_true]

section
variable {cfg : Config} {lib : CronLib} {ρ : Rules} {id : String} {ls : List SystemLabel}
  {w₁ w : World} {r₁ : JobRecord} {outs : List JobState}

/-- **The record's limit counts.** From a job that has not failed, through
failures that may be retried, the outcomes are those of the record's limit. -/
theorem outcomes_of_failures (hρ : ρ.faults = false) (hg₁ : Agrees cfg w₁)
    (hr₁ : w₁.store.jobs.lookup id = some r₁) (hstart : Unfailed False r₁)
    (hm : 1 ≤ maxAttemptsOf r₁) (h : Path (Watching cfg lib ρ id) (w₁, []) ls (w, outs))
    (hfails : ∀ e ∈ failures id ls, isNonRetryable cfg e r₁.retry.unmarshal = false) :
    outs = (expectedOutcomes (maxAttemptsOf r₁)).take (failures id ls).length ∧
      ((failures id ls).length : Int) ≤ maxAttemptsOf r₁ := by
  obtain ⟨-, r, -, hcount, houts⟩ : Agrees cfg w ∧ ∃ r, w.store.jobs.lookup id = some r ∧
      FailureCount r₁ (failures id ls) r ∧
      outs = (expectedOutcomes (maxAttemptsOf r₁)).take (failures id ls).length := by
    refine h.invariant (I := fun ls x =>
      (∀ e ∈ failures id ls, isNonRetryable cfg e r₁.retry.unmarshal = false) →
      Agrees cfg x.1 ∧ ∃ r, x.1.store.jobs.lookup id = some r ∧ FailureCount r₁ (failures id ls) r ∧
        x.2 = (expectedOutcomes (maxAttemptsOf r₁)).take (failures id ls).length)
      (fun _ => ⟨hg₁, _, hr₁, .start hstart, rfl⟩) (fun ls x l y ih ⟨hl, hs, hy⟩ hall => ?_) hfails
    have happend : failures id (ls ++ [l]) = failures id ls ++ (failureOf id l).toList := by
      rw [failures, List.filterMap_append, List.filterMap_cons, List.filterMap_nil]
      cases failureOf id l <;> rfl
    rw [happend] at hall ⊢
    obtain ⟨hg, r, hr, hc, hx⟩ := ih fun e he => hall e (List.mem_append_left _ he)
    refine ⟨step_agrees hρ hg hs, ?_⟩
    obtain ⟨r', hr', hstep⟩ := hc.step hρ hg hs hr hl
    refine ⟨r', hr', ?_⟩
    rw [hy, outcomeIn, hr', hx]
    cases hf : failureOf id l with
    | none =>
      rw [hf] at hstep
      simp only [Option.toList_none, List.append_nil]
      exact ⟨hstep, trivial⟩
    | some e =>
      rw [hf] at hstep hall
      obtain ⟨hc', hstate⟩ := hstep
      refine ⟨hc', ?_⟩
      have hbound := hc'.bound hm
      rw [List.length_append, List.length_singleton, Int.natCast_add, Int.natCast_one] at hbound
      have hretry : r.retry = r₁.retry := by
        have hfixed := congrArg JobRecord.retry hc.fixed
        exact hfixed
      have he : isNonRetryable cfg e r.retry.unmarshal = false := by
        rw [hretry]
        exact hall e (List.mem_append_right _ List.mem_cons_self)
      simp only [Option.map_some, Option.toList_some]
      rw [hstate, outcomeOf_retryable he, maxAttemptsOf_fixed hc.fixed, List.length_append,
        List.length_singleton, take_expectedOutcomes hbound]
  exact ⟨houts, hcount.bound hm⟩

end

/-! ## The limit that was sent -/

/-- The worker does not say that the error is final. -/
def MayRetry (e : Option JobError) : Prop := ∀ err, e = some err → err.retryable ≠ some false

/-- A policy that was sent names no errors that are final. -/
theorem isNonRetryable_sent {cfg : Config} {e : Option JobError} (he : MayRetry e)
    (r : Proto.RetryPolicy) : isNonRetryable cfg e (some (protoRetryToCore r)) = false := by
  cases e with
  | none => rfl
  | some err =>
    simp only [isNonRetryable, if_neg (he err rfl)]
    rfl

section
variable {P : ProtoLib} {cfg : Config} {lib : CronLib} {ρ : Rules}
  {req : Proto.EnqueueRequest P} {opts : Proto.EnqueueOptions P} {r : Proto.RetryPolicy}

theorem enqueueRequestToJob_limits (hopts : req.options = some opts) (hretry : opts.retry = some r) :
    (enqueueRequestToJob req).retry = some (protoRetryToCore r) ∧
      (enqueueRequestToJob req).maxAttempts = none := by
  rw [enqueueRequestToJob, hopts]
  simp only [hretry]
  exact ⟨rfl, trivial⟩

/-- **The limit of attempts.** When a job enqueued over gRPC has failed as often
as its policy says, or as it can, the outcomes are those of its policy exactly
when the policy says three. -/
theorem enqueue_attempts_iff (hρ : ρ.faults = false) {t : Time} {ls₀ ls : List SystemLabel}
    {w₀ w₁ w : World} {outs : List JobState} {job : Job} (hopts : req.options = some opts)
    (hretry : opts.retry = some r) (hm : 1 ≤ r.maxAttempts) (h₀ : SystemRun cfg lib ρ t ls₀ w₀)
    (hpush : SystemStep cfg lib ρ w₀ (.op (.job (.push (enqueueRequestToJob req))) (.ok job)) w₁)
    (hnew : w₀.store.jobs.lookup job.id = none)
    (h : Path (Watching cfg lib ρ job.id) (w₁, []) ls (w, outs))
    (hfails : ∀ e ∈ failures job.id ls, MayRetry e)
    (hmany : min r.maxAttempts 3 ≤ (failures job.id ls).length) :
    outs = expectedOutcomes r.maxAttempts ↔ r.maxAttempts = 3 := by
  have hg₀ : Agrees cfg w₀ := run_agrees hρ h₀
  obtain ⟨hr₁, hpolicy, hlimit⟩ : w₁.store.jobs.lookup job.id = some (jobToRecord job) ∧
      job.retry = some (protoRetryToCore r) ∧ job.maxAttempts = none := by
    cases hpush with
    | op o a hfresh _ hrun =>
      have hρ' : (ρ.reserving (SystemOp.inUse (.job (.push (enqueueRequestToJob req))) w₀)).faults =
        false := hρ
      obtain ⟨hstored, hsame, hmax⟩ := (wp_iff_runs _ _ _ _).mp
        (push_creates hρ' hg₀.named (Op.Fresh.push hfresh)) _ w₁ hrun job rfl hnew
      have hjob := enqueueRequestToJob_limits hopts hretry
      exact ⟨hstored, hsame.trans hjob.1, hmax.trans hjob.2⟩
  have hmax : maxAttemptsOf (jobToRecord job) = 3 := by
    rw [maxAttemptsOf, jobToRecord, hlimit]
    rfl
  have hstart : Unfailed False (jobToRecord job) :=
    ⟨((stored_unfailed hρ hg₀ hpush hnew).unfailed _ hr₁).attempt, False.elim⟩
  have hfinal : ∀ e ∈ failures job.id ls,
      isNonRetryable cfg e (jobToRecord job).retry.unmarshal = false := by
    intro e he
    rw [jobToRecord, hpolicy]
    exact isNonRetryable_sent (hfails e he) r
  obtain ⟨houts, hbound⟩ := outcomes_of_failures hρ (step_agrees hρ hg₀ hpush) hr₁ hstart
    (by rw [hmax]; decide) h hfinal
  rw [hmax] at houts hbound
  rw [houts]
  exact take_expectedOutcomes_iff hm (by decide) hbound hmany

end

/-! ## One attempt is asked for -/

theorem watching_of_path {cfg : Config} {lib : CronLib} {ρ : Rules} {id : String}
    {ls : List SystemLabel} {w w' : World}
    (h : Path (Meeting (fun _ l => ¬ Restarts id l) (SystemStep cfg lib ρ)) w ls w') :
    ∃ outs, Path (Watching cfg lib ρ id) (w, []) ls (w', outs) := by
  induction h with
  | nil => exact ⟨[], .nil⟩
  | @snoc ls l w' w'' _ hs ih =>
    obtain ⟨outs, ih⟩ := ih
    exact ⟨outs ++ outcomeIn id l w'', ih.snoc ⟨hs.1, hs.2, rfl⟩⟩

def oneAttempt : Proto.RetryPolicy := { maxAttempts := 1 }
def oneAttemptOptions : Proto.EnqueueOptions demoProto :=
  { queue := "default", retry := some oneAttempt }
def oneAttemptRequest : Proto.EnqueueRequest demoProto :=
  { type := "email", options := some oneAttemptOptions }

/-- The request as a step: the new identifier is `j1`. -/
def enqueueFirst : SystemAct :=
  .op (.job (.push (enqueueRequestToJob oneAttemptRequest)))
    [.tick 0, .uuid "j1", .ok, .ok, .ok, .ok, .ok, .ok, .ok]

/-- The job of the request has failed once, and is to be tried again. -/
theorem one_attempt_retried :
    (SystemAct.play demo demoLib {} [enqueueFirst, fetchFirst, failFirst] (.start 0)).map
      (fun (ls, w) => (failures "j1" ls, demoState w)) =
      some ([some demoError], some .retryable) ∧
    expectedOutcomes oneAttempt.maxAttempts = [.discarded] :=
  ⟨rfl, rfl⟩

theorem enqueue_attempts_one : ∃ (w₁ : World) (ls : List SystemLabel) (w : World)
    (outs : List JobState), Path (Watching demo demoLib {} "j1") (w₁, []) ls (w, outs) ∧
      failures "j1" ls = [some demoError] ∧
      (outs = expectedOutcomes oneAttempt.maxAttempts ↔ oneAttempt.maxAttempts = 3) := by
  have hrun : ((enqueueFirst.run demo demoLib {} (.start 0)).bind fun (_, w₁) =>
      (SystemAct.play demo demoLib {} [fetchFirst, failFirst] w₁).map fun (ls, _) =>
        failures "j1" ls) = some [some demoError] := rfl
  obtain ⟨⟨l₀, w₁⟩, hpush, hrun⟩ := Option.bind_eq_some_iff.mp hrun
  obtain ⟨⟨ls, w⟩, hplay, hfs⟩ := Option.map_eq_some_iff.mp hrun
  have hfs : failures "j1" ls = [some demoError] := hfs
  obtain ⟨a, rfl, hscript⟩ := SystemAct.run_op hpush
  have hok : ∀ x ∈ [fetchFirst, failFirst], ∀ w l w',
      x.run demo demoLib {} w = some (l, w') → ¬ Restarts "j1" l := by
    intro x hx w l w' hr
    simp only [List.mem_cons, List.not_mem_nil, or_false] at hx
    rcases hx with rfl | rfl <;> (obtain ⟨a, rfl, -⟩ := SystemAct.run_op hr; exact id)
  obtain ⟨outs, hpath⟩ := watching_of_path (SystemAct.play_path hplay hok)
  have hid : ((script (Rules.reserving {} (SystemOp.inUse
      (.job (.push (enqueueRequestToJob oneAttemptRequest))) (.start 0))).act
      [.tick 0, .uuid "j1", .ok, .ok, .ok, .ok, .ok, .ok, .ok]
      (SystemOp.prog demo demoLib (.job (.push (enqueueRequestToJob oneAttemptRequest)))) (.start 0)).map
      fun (a, _) => a.toOption.map (·.id)) = some (some "j1") := rfl
  rw [hscript] at hid
  cases a with
  | error e => cases hid
  | ok job =>
    have hid : job.id = "j1" := Option.some.inj (Option.some.inj hid)
    refine ⟨w₁, ls, w, outs, hpath, hfs, ?_⟩
    have hopts : oneAttemptRequest.options = some oneAttemptOptions := rfl
    refine enqueue_attempts_iff rfl hopts rfl (by decide) .nil (SystemAct.run_step hpush)
      (by rw [hid]; rfl) (hid ▸ hpath) (fun e he => ?_) (by rw [hid, hfs]; decide)
    rw [hid, hfs, List.mem_singleton] at he
    subst he
    rintro err ⟨⟩
    decide

end OjsSqs
