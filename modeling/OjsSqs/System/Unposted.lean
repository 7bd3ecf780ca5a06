import OjsSqs.System.Shifts

/-! # Jobs on the way to their queue

Between the call that stores a job and the call that sends it the job has no
message, no marker and nobody who knows of it: whatever is done with other jobs
meanwhile passes it over. The calls of a push keep the places of all jobs in
agreement when they are made in this order. -/
namespace OjsSqs
open Calls

/-- The writes that leave the job alone. -/
def Writes.sparing (id : String) : Writes where
  rewrite i _ := i ≠ id
  create r := r.id ≠ id
  carry _ := True
  send job := job.id ≠ id
  mark _ i := i ≠ id
  bury i := i ≠ id

/-- The job of the record is stored, and it has no message. -/
structure Unposted (r : JobRecord) (w : World) : Prop where
  stored : w.store.jobs.lookup r.id = some r
  messages : w.sqs.messagesOf r.id = []

section
variable {cfg : Config} {lib : CronLib} {ρ : Rules} {r : JobRecord} {w w' : World}

theorem Writes.sparing_writesJob {id : String} {c : Call}
    (hc : (Writes.sparing id).allows cfg c) : c.writesJob ≠ some id := by
  intro h
  cases c with
  | dynamo d =>
    cases d with
    | putJobItem r => exact hc (Option.some.inj h)
    | updateJobItem i s us sk pk =>
      obtain ⟨x, hx, -⟩ := hc
      exact hx (Option.some.inj h)
    | _ => cases h
  | sqs c => cases h
  | proc c => cases h

theorem Unposted.call {c : Call} {a : Answer c} (h : Unposted r w)
    (hc : (Writes.sparing r.id).allows cfg c) (he : ρ.env c w a w') : Unposted r w' := by
  refine ⟨(Rules.env_job (Writes.sparing_writesJob hc) he).trans h.stored, ?_⟩
  cases c with
  | dynamo d =>
    obtain ⟨_, _, -, -, rfl⟩ := Rules.env_dynamo he
    exact h.messages
  | proc c =>
    rw [Rules.env_proc_sqs he]
    exact h.messages
  | sqs c =>
    obtain ⟨ch, q', -, hact, rfl⟩ := Rules.env_sqs he
    have hw : (Writes.withholding r.id).allows cfg (.sqs c) := by cases c <;> exact hc
    exact SqsState.act_unsent hact hw h.messages

theorem guards_unposted (r : JobRecord) :
    Guards cfg ρ (.sparing r.id) fun w => Unposted r w ∧ w.NamedJobs where
  keeps _ _ _ _ hc h he := ⟨h.1.call hc he, Rules.env_named he h.2⟩
  stores w job h hn _ _ := by
    have hne : job.id ≠ r.id := by
      intro hid
      rw [hid, h.1.stored] at hn
      cases hn
    exact ⟨fun _ _ _ => hne, hne, fun _ _ => hne⟩
  named _ h := h.2

/-! ## Single calls -/

/-- Queues and the cache of their URLs belong to no job. -/
theorem Agrees.queues (hg : Agrees cfg w) (hst : w'.store = w.store) (hq : w'.sqs.Sound)
    (hk : w.sqs.Keeps w'.sqs) (hm : ∀ id, w'.sqs.messagesOf id = w.sqs.messagesOf id)
    (hurls : ∀ queue url, w'.queueURLs.lookup queue = some url → url = sqsQueueName cfg queue) :
    Agrees cfg w' := by
  have hbare : w'.bare.store = w.bare.store := congrArg Store.bare hst
  refine Good.untouched hg ⟨hq, hurls, rfl⟩ (fun id => ⟨?_, fun i => ?_, ?_, hm id⟩) hk
  · rw [hbare]
  · rw [World.marked, hbare, World.marked]
  · rw [World.dead, hbare, World.dead]

theorem Agrees.createQueue {name : String} {a : Except AwsError String} (hg : Agrees cfg w)
    (he : ρ.env (.sqs (.createQueue name)) w a w') : Agrees cfg w' := by
  obtain ⟨ch, q', -, hact, rfl⟩ := Rules.env_sqs he
  cases ch <;> simp only [SqsState.act, reduceCtorEq] at hact <;> cases hact
  · exact hg.queues rfl (SqsState.sound_createQueue name hg.sound.sqs)
      (SqsState.keeps_createQueue name) (SqsState.createQueue_messagesOf name) hg.sound.urls
  · exact hg

/-- A step of the process. -/
theorem Agrees.proc {c : ProcCall} {a : c.Answer} (hg : Agrees cfg w)
    (hc : ∀ queue url, c = .cacheURL queue url → url = sqsQueueName cfg queue)
    (he : ρ.env (.proc c) w a w') : Agrees cfg w' := by
  have hurls : ∀ queue url, w'.queueURLs.lookup queue = some url →
      url = sqsQueueName cfg queue := by
    intro queue url hu
    have hold : w.queueURLs.lookup queue = some url → url = sqsQueueName cfg queue :=
      hg.sound.urls queue url
    obtain ⟨ch, -, he⟩ := Rules.env_proc he
    cases c with
    | cacheURL q u =>
      cases ch <;> simp only [World.actProc, reduceCtorEq] at he
      cases he
      by_cases hq : queue = q
      · subst hq
        rw [AList.lookup_insert] at hu
        exact Option.some.inj hu ▸ hc queue u rfl
      · rw [AList.lookup_insert_ne hq] at hu
        exact hold hu
    | _ =>
      cases ch <;> simp only [World.actProc, reduceCtorEq] at he
      first
      | (cases he; exact hold hu)
      | (obtain ⟨-, he⟩ := Option.ite_none_right_eq_some.mp he
         cases he
         exact hold hu)
  have hq := Rules.env_proc_sqs he
  have hsound : w'.sqs.Sound := by
    rw [hq]
    exact hg.sound.sqs
  have hk : w.sqs.Keeps w'.sqs := by
    rw [hq]
    exact .refl _
  exact hg.queues (Rules.env_proc_store he) hsound hk (fun _ => by rw [hq]) hurls

/-- A new job is stored. -/
theorem Agrees.putJobItem {a : Except AwsError Unit} (hg : Agrees cfg w)
    (hn : w.store.jobs.lookup r.id = none) (hst : r.state = .available)
    (hh : r.sqsReceiptHandle = none) (he : ρ.env (.dynamo (.putJobItem r)) w a w') :
    Agrees cfg w' ∧ (∀ u, a = .ok u → Unposted r w') := by
  obtain ⟨ch, s', -, hact, rfl⟩ := Rules.env_dynamo he
  have hu : Unknown w.bare r.id := hg.unknown r.id hn
  have hgood : Agrees cfg (w.setJob r.id r) := by
    have hf : Fits cfg .any [] (w.bare.setJob r.id r) r.id r :=
      .unsent rfl hu.messages hu.marked hu.dead rfl hst hh
    have hm : Moves cfg .any w.bare .promoteRetries w.bare (w.bare.setJob r.id r) :=
      Good.arrive hg hn (touch_setJob r.id hg.sound r) (World.setJob_lookup _ _) hf
    exact hm.good
  cases ch <;> simp only [Store.act, reduceCtorEq] at hact <;> cases hact
  · exact ⟨hgood, fun _ _ => ⟨AList.lookup_insert _, hu.messages⟩⟩
  · exact ⟨hg, fun _ h => by cases h⟩

/-- The message of a stored job is sent, or the request has failed. -/
theorem Agrees.sendMessage {job : Job} {a : Except AwsError MessageId} (hg : Agrees cfg w)
    (h : Unposted (jobToRecord job) w) (hst : job.state = .available)
    (he : ρ.env (.sqs (.sendMessage (sqsQueueName cfg job.queue) (outMessage cfg job job)))
      w a w') : Agrees cfg w' ∧ ∀ e, a = .error e → w' = w := by
  obtain ⟨ch, q', -, hact, rfl⟩ := Rules.env_sqs he
  cases ch <;> simp only [SqsState.act, reduceCtorEq] at hact <;> cases hact
  · have hu : Unsent w.bare job := ⟨⟨jobToRecord job, h.stored, hst, rfl, rfl, rfl⟩, h.messages⟩
    exact ⟨(Good.sendOne rfl hg hu).1, fun _ h => by cases h⟩
  · exact ⟨hg, fun _ _ => rfl⟩

/-! ## Operations -/

/-- The label is of an operation that workers and promoters call, or of the
environment. -/
def SystemLabel.tends : SystemLabel → Bool
  | .op (.job (.fetch _ _ _ _ _)) _ | .op (.job (.ack _ _)) _ | .op (.job (.nack _ _ _)) _
  | .op (.job .promoteRetries) _ | .env _ => true
  | _ => false

variable (hρ : ρ.faults = false)
include hρ

/-- Only an active job is acknowledged or fails. -/
theorem ack_idle {result : Option String} (hr : w.store.jobs.lookup r.id = some r)
    (hst : r.state ≠ .active) :
    wp ρ.env.every (ack cfg r.id result) (fun _ w' => w' = w) w := by
  rw [ack, wp_bind, wp_getJob_some hρ hr]
  simp only
  rw [if_pos hst]
  rfl

theorem nack_idle {e : Option JobError} {requeue : Bool}
    (hr : w.store.jobs.lookup r.id = some r) (hst : r.state ≠ .active) :
    wp ρ.env.every (nack cfg r.id e requeue) (fun _ w' => w' = w) w := by
  rw [nack, wp_bind, wp_getJob_some hρ hr]
  simp only
  rw [if_pos hst]
  rfl

/-- A promoter does not come to a job without a marker. -/
theorem promote_unposted {i : DueIndex} (h : Unposted r w) (hn : w.NamedJobs)
    (hm : w.marked i r.id = false) :
    wp ρ.env.every (promote cfg i) (fun _ w' => Unposted r w') w := by
  have G : Guards cfg ρ (.sparing r.id) fun w => Unposted r w ∧ w.NamedJobs := guards_unposted r
  rw [promote, wp_bind]
  refine wp_timeNow fun t ht => ?_
  have ht' := G.setClock ⟨h, hn⟩ ht
  rw [wp_bind]
  refine wp_getDueJobs hρ fun ids hpage => ?_
  simp only
  have hid : r.id ∉ ids := by
    intro hid
    rw [Store.isDuePage, Bool.and_eq_true, List.all_eq_true] at hpage
    have hdue : (w.setClock t).store.isDue i t.unixMilli r.id = true := hpage.2 r.id hid
    have hnone : ((w.setClock t).store.due i).lookup r.id = none :=
      Option.isNone_iff_eq_none.mp (Option.isSome_eq_false_iff.mp hm)
    rw [Store.isDue, hnone] at hdue
    cases hdue
  refine wp_mono (Env.every_mono _) _ (G.promoteAll hρ (fun k hk t hki => ?_) (fun job hj hji => ?_)
    none (w.setClock t) ht') fun a w' h' => h'.1
  · exact hid (hki ▸ hk)
  · exact hid (hji ▸ hj)

/-- An operation on jobs finds nothing of a job that is not sent yet. -/
theorem Unposted.step {l : SystemLabel} (h : Unposted r w) (hg : Agrees cfg w)
    (hst : r.state = .available) (hl : l.tends = true) (hs : SystemStep cfg lib ρ w l w') :
    Unposted r w' := by
  have G : ∀ ids, Guards cfg (ρ.reserving ids) (.sparing r.id)
      fun w => Unposted r w ∧ w.NamedJobs := fun _ => guards_unposted r
  have hidle : r.state ≠ .active := by rw [hst]; nofun
  have hρ' : ∀ ids, (ρ.reserving ids).faults = false := fun _ => hρ
  cases hs with
  | op o a hfresh hdone hr =>
    cases o with
    | job o =>
      cases o with
      | fetch fuel queues count worker vis =>
        have hout : OutOfReach cfg queues r.id w := by
          intro queue _ _ m hm
          rw [h.messages] at hm
          cases hm
        have htidy : Tidy w := ⟨hg.sound.sqs, hg.named⟩
        have hspares := (wp_runs (fetch_spares (hρ' _) htidy hout) hr).1.2
        exact ⟨hspares.job.trans h.stored, hspares.messages.trans h.messages⟩
      | ack i result =>
        by_cases hi : i = r.id
        · subst hi
          exact wp_runs (ack_idle (hρ' _) h.stored hidle) hr ▸ h
        · exact (wp_runs ((G _).ack (fun _ => hi) w ⟨h, hg.named⟩) hr).1
      | nack i e requeue =>
        by_cases hi : i = r.id
        · subst hi
          exact wp_runs (nack_idle (hρ' _) h.stored hidle) hr ▸ h
        · have hnacks : (Writes.sparing r.id).Nacks i e requeue :=
            ⟨fun _ _ => hi, fun _ _ _ => hi, fun _ _ _ => hi, hi, hi⟩
          exact (wp_runs ((G _).nack hnacks w ⟨h, hg.named⟩) hr).1
      | promoteRetries =>
        have hf : Fits cfg .any [] w.bare r.id r := hg.fits r.id r h.stored
        have hm : w.marked .retry r.id = false := hf.retry.trans (by rw [hst]; rfl)
        exact wp_runs (Q := fun _ w' => Unposted r w') (promote_unposted (hρ' _) h hg.named hm) hr
      | _ => cases hl
    | _ => cases hl
  | env l hop hs =>
    cases hs with
    | op o a => cases hop
    | expireVisibility m =>
      refine ⟨h.stored, ?_⟩
      refine (SqsState.messagesOf_map (SqsState.same_expired m) r.id).trans ?_
      rw [h.messages]
      rfl
    | ensureDLQ queue url _ hr =>
      have G : Guards cfg ρ (.sparing r.id) fun w => Unposted r w ∧ w.NamedJobs :=
        guards_unposted r
      have h₀ : Unposted r { w with background := w.background.erase (queue, url) } :=
        ⟨h.stored, h.messages⟩
      exact (wp_runs (G.within (apart_ensureDLQ queue url).within _ ⟨h₀, hg.named⟩) hr).1
    | tick t _ => exact ⟨h.stored, h.messages⟩
    | expireKey fp item _ _ => exact ⟨h.stored, h.messages⟩

end
end OjsSqs
