import OjsSqs.Events.Connections

/-! # What the clients of the WebSocket handler get

A client gets the events of the channels it has subscribed to, each once and in
the order the broker sent them, has at most one subscription for each channel,
and leaves none behind. -/
namespace OjsSqs
open Calls

/-- The frame forwards the event. -/
def ForwardOf (marshal : JobEvent → Option String) (channel : String) (m : SentEvent) (frame : WsFrame) :
    Prop :=
  ∃ id data, marshal m.event = some data ∧ frame = {
    type := "event"
    channel := channel
    event := m.event.eventType
    data := data
    id := formatEventID id
    timestamp := m.event.timestamp }

/-- The event a goroutine has read and not written. -/
def WsForwarder.pending : Option WsForwarder → List SentEvent
  | some (.holding m) | some (.numbered m _) => [m]
  | _ => []

/-- What was written of one subscription. -/
def WsConn.framesFrom (s : Nat) (k : WsConn) : List WsFrame :=
  k.out.filterMap fun w => if w.source = some s then some w.frame else none

namespace WsService

/-- The frames of a subscription forward events that were read from it, in their
order. -/
def Relayed (marshal : JobEvent → Option String) (bl : List PubSubBroker.Label) (st : WsService)
    (s c : Nat) (channel : String) : Prop :=
  ∃ ms : List SentEvent, List.Forall₂ (ForwardOf marshal channel) ms ((st.conn c).framesFrom s) ∧
    (ms ++ WsForwarder.pending (st.forwarder s)).Sublist (PubSubBroker.received s bl)

/-- The invariant of the forwarding. -/
structure Forwarding (marshal : JobEvent → Option String) (bl : List PubSubBroker.Label)
    (st : WsService) : Prop where
  source : ∀ c, ∀ w ∈ (st.conn c).out, ∀ s, w.source = some s →
    ∃ channel, st.owner s = some (c, channel)
  replies : ∀ c, ∀ w ∈ (st.conn c).out, w.source = none → w.frame.type ≠ "event"
  started : ∀ s f, st.forwarder s = some f → ∃ c channel, st.owner s = some (c, channel)
  numbered : ∀ s m response, st.forwarder s = some (.numbered m response) → ∀ c channel,
    st.owner s = some (c, channel) → ForwardOf marshal channel m { response with }
  relayed : ∀ s c channel, st.owner s = some (c, channel) → Relayed marshal bl st s c channel

theorem forwarding_new (marshal : JobEvent → Option String) : Forwarding marshal [] {} :=
  ⟨fun _ _ h => (by cases h), fun _ _ h => (by cases h), fun _ _ h => (by cases h),
    fun _ _ _ h => (by cases h), fun _ _ _ h => (by cases h)⟩

variable {marshal : JobEvent → Option String} {bl bl' : List PubSubBroker.Label} {st st' : WsService}

theorem received_mono (s : Nat) (bl bl' : List PubSubBroker.Label) :
    (PubSubBroker.received s bl).Sublist (PubSubBroker.received s (bl ++ bl')) := by
  unfold PubSubBroker.received
  rw [List.filterMap_append]
  exact List.sublist_append_left _ _

/-- A step that writes nothing and is none of the goroutines'. -/
theorem Forwarding.keep (h : Forwarding marshal bl st) (hout : ∀ c, (st'.conn c).out = (st.conn c).out)
    (howner : st'.owner = st.owner) (hf : st'.forwarder = st.forwarder) :
    Forwarding marshal (bl ++ bl') st' := by
  refine ⟨fun c => ?_, fun c => ?_, ?_, ?_, fun s c channel ho => ?_⟩
  · rw [hout, howner]
    exact h.source c
  · rw [hout]
    exact h.replies c
  · rw [hf, howner]
    exact h.started
  · rw [hf, howner]
    exact h.numbered
  · obtain ⟨ms, hms, hsub⟩ := h.relayed s c channel (howner ▸ ho)
    refine ⟨ms, ?_, ?_⟩
    · unfold WsConn.framesFrom
      rw [hout]
      exact hms
    · rw [hf]
      exact hsub.trans (received_mono s bl bl')

theorem Forwarding.later (h : Forwarding marshal bl st) : Forwarding marshal (bl ++ bl') st :=
  h.keep (fun _ => rfl) rfl rfl

@[simp] theorem writeJSON_owner (c : Nat) (source : Option Nat) (frame : WsFrame) (sent : Bool)
    (st : WsService) : (st.writeJSON c source frame sent).owner = st.owner := by
  unfold WsService.writeJSON
  split <;> rfl

/-- A reply of `Handle`. -/
theorem Forwarding.writeReply (h : Forwarding marshal bl st) (c : Nat) {frame : WsFrame}
    (hframe : frame.type ≠ "event") (sent : Bool) :
    Forwarding marshal bl (st.writeJSON c none frame sent) := by
  unfold WsService.writeJSON
  split
  · have hout : ∀ c' w, w ∈ ((st.setConn c { st.conn c with
        out := (st.conn c).out ++ [⟨none, frame⟩] }).conn c').out →
        w ∈ (st.conn c').out ∨ w = ⟨none, frame⟩ := by
      intro c' w hw
      by_cases hc : c' = c
      · subst hc
        simpa [WsService.setConn] using hw
      · exact .inl (by simpa [WsService.setConn, hc] using hw)
    refine ⟨fun c' w hw s hs => ?_, fun c' w hw hs => ?_, h.started, h.numbered,
      fun s c' channel ho => ?_⟩
    · rcases hout c' w hw with hw | rfl
      · exact h.source c' w hw s hs
      · cases hs
    · rcases hout c' w hw with hw | rfl
      · exact h.replies c' w hw hs
      · exact hframe
    · obtain ⟨ms, hms, hsub⟩ := h.relayed s c' channel ho
      refine ⟨ms, ?_, hsub⟩
      by_cases hc : c' = c
      · subst hc
        simpa [WsConn.framesFrom, WsService.setConn] using hms
      · simpa [WsConn.framesFrom, WsService.setConn, hc] using hms
  · exact h

/-- A step of a goroutine that writes nothing. -/
theorem Forwarding.setForwarder (h : Forwarding marshal bl st) {s : Nat} {f : WsForwarder}
    (hstarted : ∃ c channel, st.owner s = some (c, channel))
    (hnumbered : ∀ m response, f = .numbered m response → ∀ c channel,
      st.owner s = some (c, channel) → ForwardOf marshal channel m { response with })
    (hpending : ∀ ms : List SentEvent,
      (ms ++ WsForwarder.pending (st.forwarder s)).Sublist (PubSubBroker.received s bl) →
      (ms ++ WsForwarder.pending (some f)).Sublist (PubSubBroker.received s (bl ++ bl'))) :
    Forwarding marshal (bl ++ bl') (st.setForwarder s f) := by
  refine ⟨h.source, h.replies, fun x g hg => ?_, fun x m response hg => ?_,
    fun x c channel ho => ?_⟩
  · by_cases hx : x = s
    · exact hx ▸ hstarted
    · exact h.started x g (by simpa [WsService.setForwarder, hx] using hg)
  · by_cases hx : x = s
    · subst hx
      exact hnumbered m response (by simpa [WsService.setForwarder] using hg)
    · exact h.numbered x m response (by simpa [WsService.setForwarder, hx] using hg)
  · obtain ⟨ms, hms, hsub⟩ := h.relayed x c channel ho
    refine ⟨ms, hms, ?_⟩
    by_cases hx : x = s
    · subst hx
      simpa [WsService.setForwarder] using hpending ms hsub
    · simpa [WsService.setForwarder, hx] using hsub.trans (received_mono x bl bl')

/-- An event is written, or its write fails. -/
theorem Forwarding.write (h : Forwarding marshal bl st) {s c : Nat} {channel : String} {m : SentEvent}
    {response : WsResponse} (hf : st.forwarder s = some (.numbered m response))
    (ho : st.owner s = some (c, channel)) (sent : Bool) :
    Forwarding marshal bl
      ((st.writeJSON c (some s) { response with } sent).setForwarder s .waiting) := by
  have hlater : Forwarding marshal (bl ++ []) (st.setForwarder s .waiting) := by
    refine h.setForwarder ⟨c, channel, ho⟩ (fun _ _ he => (by cases he)) fun ms hms => ?_
    have hleft : ms.Sublist (PubSubBroker.received s bl) := (List.sublist_append_left ms _).trans hms
    simpa [WsForwarder.pending] using hleft
  rw [List.append_nil] at hlater
  unfold WsService.writeJSON
  split
  · have hout : ∀ c' w, w ∈ (((st.setConn c { st.conn c with
        out := (st.conn c).out ++ [⟨some s, { response with }⟩] }).setForwarder s .waiting).conn c').out →
        w ∈ (st.conn c').out ∨ c' = c ∧ w.source = some s := by
      intro c' w hw
      by_cases hc : c' = c
      · subst hc
        have hw : w ∈ (st.conn c').out ∨ w = ⟨some s, { response with }⟩ := by
          simpa [WsService.setConn, WsService.setForwarder] using hw
        rcases hw with hw | rfl
        · exact .inl hw
        · exact .inr ⟨rfl, rfl⟩
      · exact .inl (by simpa [WsService.setConn, WsService.setForwarder, hc] using hw)
    refine ⟨fun c' w hw x hx => ?_, fun c' w hw hx => ?_, hlater.started, hlater.numbered,
      fun x c' channel' hx => ?_⟩
    · rcases hout c' w hw with hw | ⟨rfl, hs⟩
      · exact h.source c' w hw x hx
      · rw [hs] at hx
        cases hx
        exact ⟨channel, ho⟩
    · rcases hout c' w hw with hw | ⟨-, hs⟩
      · exact h.replies c' w hw hx
      · rw [hs] at hx
        cases hx
    · by_cases hxs : x = s
      · subst hxs
        have hsame : (c, channel) = (c', channel') := Option.some.inj (ho.symm.trans hx)
        cases hsame
        obtain ⟨ms, hms, hsub⟩ := h.relayed x c channel ho
        refine ⟨ms ++ [m], ?_, ?_⟩
        · have hframe := h.numbered x m response hf c channel ho
          have hall := List.rel_append hms (List.Forall₂.cons hframe .nil)
          simpa [WsConn.framesFrom, WsService.setConn, WsService.setForwarder] using hall
        · rw [hf] at hsub
          simpa [WsService.setForwarder, WsForwarder.pending] using hsub
      · obtain ⟨ms, hms, hsub⟩ := hlater.relayed x c' channel' hx
        refine ⟨ms, ?_, hsub⟩
        by_cases hc : c' = c
        · subst hc
          simpa [WsConn.framesFrom, WsService.setConn, WsService.setForwarder, Ne.symm hxs] using hms
        · simpa [WsConn.framesFrom, WsService.setConn, WsService.setForwarder, hc] using hms
  · exact hlater

/-- A new subscription, of which nothing was written. -/
theorem Forwarding.subscribe (h : Forwarding marshal bl st) {s c : Nat} {channel : String}
    (hnew : ∀ c channel, st.owner s ≠ some (c, channel))
    (hout : ∀ c, (st'.conn c).out = (st.conn c).out)
    (howner : st'.owner = Function.update st.owner s (some (c, channel)))
    (hf : st'.forwarder = st.forwarder) : Forwarding marshal (bl ++ bl') st' := by
  have hne : ∀ {x c' channel'}, st.owner x = some (c', channel') → x ≠ s := by
    intro x c' channel' ho hx
    exact hnew c' channel' (hx ▸ ho)
  have hkeep : ∀ x c' channel', st.owner x = some (c', channel') → st'.owner x = some (c', channel') := by
    intro x c' channel' ho
    rw [howner, Function.update_of_ne (hne ho)]
    exact ho
  refine ⟨fun c' w hw x hx => ?_, fun c' w hw => ?_, fun x f hx => ?_,
    fun x m response hx c' channel' ho => ?_, fun x c' channel' ho => ?_⟩
  · obtain ⟨channel', ho⟩ := h.source c' w (hout c' ▸ hw) x hx
    exact ⟨channel', hkeep _ _ _ ho⟩
  · exact h.replies c' w (hout c' ▸ hw)
  · obtain ⟨c', channel', ho⟩ := h.started x f (hf ▸ hx)
    exact ⟨c', channel', hkeep _ _ _ ho⟩
  · obtain ⟨c₁, channel₁, ho₁⟩ := h.started x _ (hf ▸ hx)
    have hsame := hkeep _ _ _ ho₁
    rw [ho] at hsame
    cases hsame
    exact h.numbered x m response (hf ▸ hx) c' channel' ho₁
  · by_cases hx : x = s
    · subst hx
      refine ⟨[], ?_, ?_⟩
      · have hnone : (st'.conn c').framesFrom x = [] := by
          refine List.filterMap_eq_nil_iff.mpr fun w hw => if_neg fun hs => ?_
          obtain ⟨channel₁, ho₁⟩ := h.source c' w (hout c' ▸ hw) x hs
          exact hnew c' channel₁ ho₁
        rw [hnone]
        exact .nil
      · have hnone : st'.forwarder x = none := by
          cases hfx : st.forwarder x with
          | none => exact hf ▸ hfx
          | some f =>
            obtain ⟨c₁, channel₁, ho₁⟩ := h.started x f hfx
            exact absurd ho₁ (hnew c₁ channel₁)
        rw [hnone]
        exact List.nil_sublist _
    · have ho' : st.owner x = some (c', channel') := by
        rw [howner, Function.update_of_ne hx] at ho
        exact ho
      obtain ⟨ms, hms, hsub⟩ := h.relayed x c' channel' ho'
      refine ⟨ms, ?_, ?_⟩
      · unfold WsConn.framesFrom
        rw [hout]
        exact hms
      · rw [hf]
        exact hsub.trans (received_mono x bl bl')

/-- What the handler makes of an event. -/
theorem forward_forwardOf {m : SentEvent} {channel : String} {response : WsResponse}
    {h h' : WSHandler} (hf : h.forward marshal channel m.event = (some response, h')) :
    ForwardOf marshal channel m { response with } := by
  unfold WSHandler.forward at hf
  split at hf
  · cases hf
  · rename_i data hdata
    cases hf
    exact ⟨h.eventID + 1, data, hdata, rfl⟩

/-- **One step.** -/
theorem Forwarding.step {l : Label} (h : Forwarding marshal bl st) (hc : Connected bl st)
    (hs : st.step marshal l = some st') : Forwarding marshal (bl ++ l.ofBroker.toList) st' := by
  have hact : ∀ {l : PubSubBroker.Label} {st' : WsService}, st.act l = some st' →
      ∃ b', st.broker.step l = some b' ∧ st' = { st with broker := b' } := by
    intro l st' ha
    obtain ⟨b', hb, he⟩ := Option.map_eq_some_iff.mp ha
    exact ⟨b', hb, he.symm⟩
  have hset : ∀ (st : WsService) (c : Nat) (k : WsConn), k.out = (st.conn c).out →
      ∀ c', ((st.setConn c k).conn c').out = (st.conn c').out := by
    intro st c k hk c'
    by_cases hcc : c' = c
    · subst hcc
      simpa [WsService.setConn] using hk
    · simp [WsService.setConn, hcc]
  cases l with
  | accept =>
    cases hs
    exact h.keep (fun _ => rfl) rfl rfl
  | other l =>
    obtain ⟨-, ha⟩ := Option.ite_none_right_eq_some.mp hs
    obtain ⟨b', hb, rfl⟩ := hact ha
    exact h.keep (fun _ => rfl) rfl rfl
  | message c msg found sent =>
    obtain ⟨-, hs⟩ := Option.ite_none_right_eq_some.mp hs
    cases hs
    have hreply : ∀ frame : WsFrame, frame.type ≠ "event" →
        Forwarding marshal (bl ++ []) (st.writeJSON c none frame sent) :=
      fun frame hframe => (h.writeReply c hframe sent).later
    have hsame : ∀ k : WsConn, k.out = (st.conn c).out →
        Forwarding marshal (bl ++ []) (st.setConn c k) :=
      fun k hk => h.keep (hset st c k hk) rfl rfl
    show Forwarding marshal (bl ++ []) _
    unfold handleMessage
    split
    · exact hreply _ (by decide)
    · rename_i msg
      split
      · unfold handleSubscribe
        split
        · exact hreply _ (show "subscribed" ≠ "event" by decide)
        · split
          · exact hreply _ (show "error" ≠ "event" by decide)
          · rename_i k _
            split
            · rename_i frame hframe
              refine hreply frame ?_
              cases found <;> cases k <;> cases hframe <;> exact (show "error" ≠ "event" by decide)
            · exact hsame _ rfl
      · split
        · unfold handleUnsubscribe
          split
          · exact hsame _ rfl
          · exact hreply _ (show "unsubscribed" ≠ "event" by decide)
        · exact hreply _ (show "error" ≠ "event" by decide)
  | hangUp c =>
    obtain ⟨-, hs⟩ := Option.ite_none_right_eq_some.mp hs
    cases hs
    exact h.keep (hset st c _ rfl) rfl rfl
  | expire c =>
    cases hs
    exact h.keep (hset st c _ rfl) rfl rfl
  | subscribe c s channel =>
    simp only [WsService.step] at hs
    split at hs
    · rename_i channel' k hp hk
      obtain ⟨-, hs⟩ := Option.ite_none_right_eq_some.mp hs
      obtain ⟨st₁, ha, hs⟩ := Option.map_eq_some_iff.mp hs
      obtain ⟨b', hb, rfl⟩ := hact ha
      subst hs
      refine h.subscribe (fun c' channel' ho => ?_) (hset { st with broker := b' } c _ rfl) rfl rfl
      obtain ⟨⟨-, hfresh⟩, -⟩ := Option.ite_none_right_eq_some.mp hb
      have hlt := hc.lt ho
      omega
    · cases hs
  | start c sent =>
    simp only [WsService.step] at hs
    split at hs
    · rename_i sub hp
      cases hs
      have hown : st.owner sub.s = some (c, sub.channel) := by
        refine (hc.holds c).own sub ?_
        unfold WsConn.standing
        rw [hp]
        exact List.mem_cons_self
      have hstored : Forwarding marshal (bl ++ [])
          (st.setConn c { st.conn c with subs := sub :: (st.conn c).subs, pc := .reading }) :=
        h.keep (hset st c _ rfl) rfl rfl
      rw [List.append_nil] at hstored
      have hreply : (WsFrame.subscribed sub.channel).type ≠ "event" :=
        show "subscribed" ≠ "event" by decide
      refine (hstored.writeReply c hreply sent).setForwarder ⟨c, sub.channel, ?_⟩
        (fun _ _ he => (by cases he)) fun ms hms => ?_
      · rw [writeJSON_owner]
        exact hown
      have hleft := (List.sublist_append_left ms _).trans hms
      simpa [WsForwarder.pending, Label.ofBroker] using hleft
    · cases hs
  | unsubscribe c s =>
    simp only [WsService.step] at hs
    split at hs
    · split at hs
      · obtain ⟨st₁, ha, hs⟩ := Option.map_eq_some_iff.mp hs
        obtain ⟨b', hb, rfl⟩ := hact ha
        subst hs
        exact h.keep (hset { st with broker := b' } c _ rfl) rfl rfl
      · cases hs
    · cases hs
  | close c s =>
    simp only [WsService.step] at hs
    split at hs
    · obtain ⟨-, hs⟩ := Option.ite_none_right_eq_some.mp hs
      obtain ⟨st₁, ha, hs⟩ := Option.map_eq_some_iff.mp hs
      obtain ⟨b', hb, rfl⟩ := hact ha
      subst hs
      exact h.keep (hset { st with broker := b' } c _ rfl) rfl rfl
    · cases hs
  | reply c sent =>
    simp only [WsService.step] at hs
    split at hs
    · rename_i channel hp
      cases hs
      have hgone : Forwarding marshal (bl ++ []) (st.goto c .reading) :=
        h.keep (hset st c _ rfl) rfl rfl
      rw [List.append_nil] at hgone
      exact (hgone.writeReply c (show "unsubscribed" ≠ "event" by decide) sent).later
    · cases hs
  | leave c =>
    simp only [WsService.step] at hs
    split at hs
    · cases hs
      exact h.keep (hset st c _ rfl) rfl rfl
    · cases hs
  | receive s m =>
    simp only [WsService.step] at hs
    split at hs
    · rename_i hf
      obtain ⟨st₁, ha, hs⟩ := Option.map_eq_some_iff.mp hs
      obtain ⟨b', hb, rfl⟩ := hact ha
      subst hs
      have hacted : Forwarding marshal (bl ++ []) ({ st with broker := b' } : WsService) :=
        h.keep (fun _ => rfl) rfl rfl
      rw [List.append_nil] at hacted
      refine hacted.setForwarder (h.started s _ hf) (fun m' response he => ?_) fun ms hms => ?_
      · cases m <;> cases he
      · have hms : ms.Sublist (PubSubBroker.received s bl) := (List.sublist_append_left ms _).trans hms
        simp only [Label.ofBroker, Option.toList_some, PubSubBroker.received_snoc]
        refine hms.append ?_
        cases m <;> simp [WsForwarder.pending, PubSubBroker.Label.received]
    · cases hs
  | forward s =>
    simp only [WsService.step] at hs
    split at hs
    · rename_i m c channel hf ho
      have hhandler : ∀ handler, Forwarding marshal bl ({ st with handler := handler } : WsService) := by
        intro handler
        have hk : Forwarding marshal (bl ++ []) ({ st with handler := handler } : WsService) :=
          h.keep (fun _ => rfl) rfl rfl
        rwa [List.append_nil] at hk
      split at hs
      · rename_i response handler hfw
        cases hs
        refine (hhandler handler).setForwarder ⟨c, channel, ho⟩ (fun m' response' he => ?_)
          fun ms hms => ?_
        · cases he
          intro c' channel' ho'
          have hsame : (c, channel) = (c', channel') := Option.some.inj (ho.symm.trans ho')
          cases hsame
          exact forward_forwardOf hfw
        · have hms : (ms ++ WsForwarder.pending (st.forwarder s)).Sublist
            (PubSubBroker.received s bl) := hms
          rw [hf] at hms
          simpa [WsForwarder.pending, Label.ofBroker] using hms
      · rename_i handler hfw
        cases hs
        refine (hhandler handler).setForwarder ⟨c, channel, ho⟩ (fun _ _ he => (by cases he))
          fun ms hms => ?_
        have hleft := (List.sublist_append_left ms _).trans hms
        simpa [WsForwarder.pending, Label.ofBroker] using hleft
    · cases hs
  | write s sent =>
    simp only [WsService.step] at hs
    split at hs
    · rename_i m response c channel hf ho
      cases hs
      exact (h.write hf ho sent).later
    · cases hs
  | quit s =>
    simp only [WsService.step] at hs
    split at hs
    · rename_i c channel hf ho
      obtain ⟨-, hs⟩ := Option.ite_none_right_eq_some.mp hs
      cases hs
      refine h.setForwarder ⟨c, channel, ho⟩ (fun _ _ he => (by cases he)) fun ms hms => ?_
      have hleft := (List.sublist_append_left ms _).trans hms
      simpa [WsForwarder.pending, Label.ofBroker] using hleft
    · cases hs

/-! ## Every run -/

theorem brokerLabels_snoc (ls : List Label) (l : Label) :
    brokerLabels (ls ++ [l]) = brokerLabels ls ++ l.ofBroker.toList := by
  unfold brokerLabels
  rw [List.filterMap_append, List.filterMap_cons, List.filterMap_nil]
  cases l.ofBroker <;> rfl

/-- **Every run.** -/
theorem run_connected {ls : List Label} (h : after marshal ls = some st) :
    Connected (brokerLabels ls) st ∧ Forwarding marshal (brokerLabels ls) st := by
  induction ls using List.reverseRecOn generalizing st with
  | nil =>
    cases h
    exact ⟨connected_new, forwarding_new marshal⟩
  | append_singleton ls l ih =>
    unfold after at h
    rw [List.foldlM_append] at h
    obtain ⟨st₀, h₀, hs⟩ := Option.bind_eq_some_iff.mp h
    have hs : st₀.step marshal l = some st := by simpa using hs
    obtain ⟨hc, hf⟩ := ih h₀
    rw [brokerLabels_snoc]
    exact ⟨hc.step hs, hf.step hc hs⟩

/-- The subscriptions of the clients at the broker. -/
structure Safe (st : WsService) : Prop where
  /-- no send on a closed channel, and no channel closed twice -/
  panic : st.broker.panic = none
  /-- one subscription for each channel of a client -/
  oneEach : ∀ c channel s s', st.owner s = some (c, channel) → st.owner s' = some (c, channel) →
    s ∈ st.broker.subs → s' ∈ st.broker.subs → s = s'
  /-- what `Handle` has returned without is closed, and no publish comes to it -/
  released : ∀ c channel s, (st.conn c).pc = .returned → st.owner s = some (c, channel) →
    s ∉ st.broker.subs ∧ (st.broker.subscription s).closed = true ∧
      ∀ p ∈ st.broker.reading, s ∉ st.broker.todo p

/-- **Subscriptions are taken back.** In every order of the steps of the
connections, their goroutines, the publishers and the other subscribers nothing
panics, a client has at most one subscription for a channel, and none when its
`Handle` has returned. -/
theorem ws_safe (ls : List Label) (hrun : after marshal ls = some st) : Safe st := by
  obtain ⟨hc, -⟩ := run_connected hrun
  refine ⟨hc.broker.panic, fun c channel s s' ho ho' hm hm' => ?_, fun c channel s hp ho => ?_⟩
  · have hs := (hc.holds c).standing s channel ho hm
    have hs' := (hc.holds c).standing s' channel ho' hm'
    have hsame := List.inj_on_of_nodup_map (hc.holds c).nodup hs hs' rfl
    exact congrArg (·.s) hsame
  · have hnone : (st.conn c).standing = [] := by
      unfold WsConn.standing
      rw [hp]
    have hout : s ∉ st.broker.subs := by
      intro hm
      have hs := (hc.holds c).standing s channel ho hm
      rw [hnone] at hs
      cases hs
    refine ⟨hout, ?_, fun p hpr hts => hout (hc.broker.tidy.todo_subs p hpr s hts)⟩
    rcases (hc.holds c).closed s channel ho with hs | ⟨reply, todo, hq⟩ | hcl
    · rw [hnone] at hs
      cases hs
    · rw [hp] at hq
      cases hq
    · exact hcl

/-- The event is one the client has subscribed to: it was published while the
subscription stood, and is about what the channel names. -/
structure Meant (ls : List Label) (s : Nat) (channel : String) (m : SentEvent) : Prop where
  published : PubSubBroker.Label.publish m.call m.event ∈ brokerLabels ls
  standing : PubSubBroker.WhileSubscribed m.call s (brokerLabels ls)
  named : ∃ k, wsChannel channel = some k ∧ Subscription.admits { filter := k.filter } m.event = true

/-- What a client has got. -/
structure Gets (marshal : JobEvent → Option String) (ls : List Label) (st : WsService) (c : Nat) :
    Prop where
  /-- every event it was sent is forwarded from a subscription of its own -/
  own : ∀ w ∈ (st.conn c).out, w.frame.type = "event" →
    ∃ s channel, w.source = some s ∧ st.owner s = some (c, channel)
  /-- and from each come events it has subscribed to, each once, in the order in
  which they were read -/
  inOrder : ∀ s channel, st.owner s = some (c, channel) → ∃ ms : List SentEvent,
    List.Forall₂ (ForwardOf marshal channel) ms ((st.conn c).framesFrom s) ∧
    ms.Sublist (PubSubBroker.received s (brokerLabels ls)) ∧ (ms.map (·.call)).Nodup ∧
    ∀ m ∈ ms, Meant ls s channel m

/-- **Clients get what they have subscribed to**, and nothing else. -/
theorem ws_gets (ls : List Label) (hrun : after marshal ls = some st) (c : Nat) :
    Gets marshal ls st c := by
  obtain ⟨hc, hf⟩ := run_connected hrun
  refine ⟨fun w hw htype => ?_, fun s channel ho => ?_⟩
  · cases hs : w.source with
    | none => exact absurd htype (hf.replies c w hw hs)
    | some s =>
      obtain ⟨channel, ho⟩ := hf.source c w hw s hs
      exact ⟨s, channel, rfl, ho⟩
  · obtain ⟨ms, hms, hsub⟩ := hf.relayed s c channel ho
    have hread : ms.Sublist (PubSubBroker.received s (brokerLabels ls)) :=
      (List.sublist_append_left ms _).trans hsub
    have harr := hc.broker.arrivals s
    have hdelivered := harr.delivered hc.broker.publishes hc.broker.stands
    refine ⟨ms, hms, hread, (hread.map (·.call)).nodup hdelivered.once, fun m hm => ?_⟩
    obtain ⟨k, hk, hsubscribed⟩ := hc.opened s c channel ho
    obtain ⟨hpub, hstood, ⟨f, hfm, hadmits⟩, -⟩ := hdelivered.sound m (hread.subset hm)
    have hfilter : f = k.filter :=
      (hc.broker.stands.filter s f hfm).2.symm.trans (hc.broker.stands.filter s k.filter hsubscribed).2
    exact ⟨hpub, hstood, k, hk, hfilter ▸ hadmits⟩

/-! ## Two clients of one job -/

/-- Two clients subscribe to the events of a job, one of them twice; it gets the
event, and hangs up. -/
def twoClients : List Label :=
  let done : JobEvent := { eventType := "job.completed", jobID := "j1", queue := "default" }
  [.accept, .accept, .message 0 (some ⟨"subscribe", "job:j1"⟩) true true, .subscribe 0 0 "job:j1",
    .message 1 (some ⟨"subscribe", "job:j1"⟩) true true, .start 0 true, .subscribe 1 1 "job:j1",
    .message 0 (some ⟨"subscribe", "job:j1"⟩) true true, .start 1 true, .other (.publish 0 done),
    .other (.offer 0 1), .other (.offer 0 0), .other (.finish 0), .receive 0 (some ⟨0, done⟩), .forward 0,
    .write 0 true, .hangUp 0, .unsubscribe 0 0, .close 0 0, .receive 0 none, .leave 0]

def encodeDemo (event : JobEvent) : Option String := some event.jobID

theorem ws_safe_two : ∃ st, after encodeDemo twoClients = some st ∧ (st.conn 0).pc = .returned ∧
    st.broker.subs = [1] ∧ Safe st := by
  have hrun : (after encodeDemo twoClients).map (fun st => ((st.conn 0).pc, st.broker.subs)) =
      some (.returned, [1]) := rfl
  obtain ⟨st, hst, hend⟩ := Option.map_eq_some_iff.mp hrun
  obtain ⟨hp, hsubs⟩ := Prod.mk.inj hend
  exact ⟨st, hst, hp, hsubs, ws_safe twoClients hst⟩

theorem ws_gets_two : ∃ st, after encodeDemo twoClients = some st ∧
    ((st.conn 0).framesFrom 0).map (fun frame => (frame.channel, frame.data, frame.id)) =
      [("job:j1", "j1", "evt_0001")] ∧ Gets encodeDemo twoClients st 0 := by
  have hrun : (after encodeDemo twoClients).map (fun st => ((st.conn 0).framesFrom 0).map
      fun frame => (frame.channel, frame.data, frame.id)) = some [("job:j1", "j1", "evt_0001")] := by
    decide
  obtain ⟨st, hst, hframes⟩ := Option.map_eq_some_iff.mp hrun
  exact ⟨st, hst, hframes, ws_gets twoClients hst 0⟩

end WsService
end OjsSqs
