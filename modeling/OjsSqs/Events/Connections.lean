import OjsSqs.Events.Delivery
import OjsSqs.Events.WebSockets

/-! # What connections hold and get

A subscription of a client is in the map of its connection, or its `Handle` is
about to store or to cancel it; when `Handle` has returned none is left at the
broker. A forwarding goroutine writes the events it reads, in their order. -/
namespace OjsSqs
open Calls

namespace PubSubBroker

/-- What holds of a broker after the steps `ls`. -/
structure SoundAfter (ls : List Label) (b : PubSubBroker) : Prop where
  run : after ls = some b
  tidy : b.WellLocked
  panic : b.panic = none
  publishes : Publishes ls b
  stands : Stands ls b
  arrivals : ∀ s, Arrivals s ls b

theorem sound_new : SoundAfter [] {} :=
  ⟨rfl, tidy_new, rfl, publishes_new, stands_new, arrivals_new⟩

variable {ls : List Label} {l : Label} {b b' : PubSubBroker} {s : Nat}

theorem SoundAfter.step (h : SoundAfter ls b) (hs : b.step l = some b')
    (hclose : l.isClose = true → b.done = false) : SoundAfter (ls ++ [l]) b' := by
  have hrun : after (ls ++ [l]) = some b' := by
    have h₀ : List.foldlM PubSubBroker.step {} ls = some b := h.run
    simp [after, List.foldlM_append, h₀, hs]
  obtain ⟨htidy, hpanic, -⟩ := h.tidy.step hs hclose
  exact ⟨hrun, htidy, hpanic.trans h.panic, h.publishes.step h.tidy h.stands.standing hs,
    h.stands.step h.tidy hs, fun s => (h.arrivals s).step h.tidy h.publishes h.stands h.run hs⟩

/-! ## What a step does to a subscription -/

@[simp] theorem closeOnceDo_subs (s : Nat) (b : PubSubBroker) : (b.closeOnceDo s).subs = b.subs := by
  unfold closeOnceDo
  simp only
  split
  · rfl
  · split <;> rfl

@[simp] theorem offerTo_subs (p s : Nat) (b : PubSubBroker) : (b.offerTo p s).subs = b.subs := by
  unfold offerTo
  simp only
  split
  · split
    · rfl
    · split <;> rfl
  · rfl

/-- Only `subscribe` adds to the map. -/
theorem step_subs (hs : b.step l = some b') (hm : s ∈ b'.subs) :
    s ∈ b.subs ∨ ∃ f, l = .subscribe s f := by
  cases l with
  | subscribe s' f =>
    obtain ⟨-, hb⟩ := Option.ite_none_right_eq_some.mp hs
    cases hb
    rcases List.mem_cons.mp hm with rfl | hm
    · exact .inr ⟨f, rfl⟩
    · exact .inl hm
  | unsubscribe s' =>
    obtain ⟨-, hb⟩ := Option.ite_none_right_eq_some.mp hs
    cases hb
    exact .inl (List.mem_of_mem_erase hm)
  | closeChannel s' =>
    obtain ⟨-, hb⟩ := Option.ite_none_right_eq_some.mp hs
    cases hb
    exact .inl (closeOnceDo_subs s' b ▸ hm)
  | closeDone =>
    rw [PubSubBroker.step] at hs
    split at hs <;> cases hs <;> exact .inl hm
  | closeAll =>
    obtain ⟨-, hb⟩ := Option.ite_none_right_eq_some.mp hs
    cases hb
    cases hm
  | publish p event =>
    obtain ⟨-, hb⟩ := Option.ite_none_right_eq_some.mp hs
    cases hb
    exact .inl hm
  | offer p s' =>
    obtain ⟨-, hb⟩ := Option.ite_none_right_eq_some.mp hs
    cases hb
    exact .inl (offerTo_subs p s' b ▸ hm)
  | finish p =>
    obtain ⟨-, hb⟩ := Option.ite_none_right_eq_some.mp hs
    cases hb
    exact .inl hm
  | receive s' m =>
    obtain ⟨f, rfl, -⟩ := step_receive hs
    exact .inl hm

theorem WellLocked.unsubscribed (h : b.WellLocked) (hs : b.step (.unsubscribe s) = some b') : s ∉ b'.subs := by
  obtain ⟨-, hb⟩ := Option.ite_none_right_eq_some.mp hs
  cases hb
  exact fun hm => (h.subs_nodup.mem_erase_iff.mp hm).1 rfl

theorem WellLocked.closes (h : b.WellLocked) (hs : b.step (.closeChannel s) = some b') :
    (b'.subscription s).closed = true := by
  obtain ⟨-, hb⟩ := Option.ite_none_right_eq_some.mp hs
  rw [closeOnceDo_eq (h.closedByOnce s)] at hb
  cases hb
  simp [setSubscription, Subscription.shut]

/-- A closed channel stays closed. -/
theorem SoundAfter.closed (h : SoundAfter ls b) (hs : b.step l = some b') (hlt : s < b.allocated)
    (hc : (b.subscription s).closed = true) : (b'.subscription s).closed = true := by
  have hset : ∀ x sub, (s = x → sub.closed = true) →
      ((b.setSubscription x sub).subscription s).closed = true := by
    intro x sub hsub
    by_cases hx : s = x
    · subst hx
      simpa [setSubscription] using hsub rfl
    · simpa [setSubscription, hx] using hc
  cases l with
  | subscribe s' f =>
    obtain ⟨⟨-, rfl⟩, hb⟩ := Option.ite_none_right_eq_some.mp hs
    cases hb
    exact hset _ _ fun hx => absurd hlt (hx ▸ Nat.lt_irrefl _)
  | closeChannel s' =>
    obtain ⟨-, hb⟩ := Option.ite_none_right_eq_some.mp hs
    rw [closeOnceDo_eq (h.tidy.closedByOnce s')] at hb
    cases hb
    exact hset _ _ fun _ => rfl
  | closeAll =>
    obtain ⟨-, hb⟩ := Option.ite_none_right_eq_some.mp hs
    rw [h.tidy.closedByOnce.foldr_closeOnceDo] at hb
    cases hb
    simp only [PubSubBroker.shut]
    split
    · rfl
    · exact hc
  | closeDone =>
    rw [PubSubBroker.step] at hs
    split at hs <;> cases hs <;> exact hc
  | offer p s' =>
    obtain ⟨⟨hp, hts⟩, hb⟩ := Option.ite_none_right_eq_some.mp hs
    have hopen := (h.tidy.standing s' (h.tidy.todo_subs p hp s' hts)).1
    rw [offerTo_eq hopen] at hb
    cases hb
    split
    · exact hset s' _ fun hx => hx ▸ hc
    · exact hc
  | receive s' m =>
    rw [PubSubBroker.step] at hs
    split at hs
    · obtain ⟨-, hb⟩ := Option.ite_none_right_eq_some.mp hs
      cases hb
      exact hset s' _ fun hx => hx ▸ hc
    · obtain ⟨-, hb⟩ := Option.ite_none_right_eq_some.mp hs
      cases hb
      exact hc
  | _ =>
    obtain ⟨-, hb⟩ := Option.ite_none_right_eq_some.mp hs
    cases hb
    exact hc

end PubSubBroker

/-- The subscriptions of the connection that are stored, or about to be, and not
cancelled. -/
def WsConn.standing (k : WsConn) : List WsSubscription :=
  match k.pc with
  | .reading | .subscribing _ => k.subs
  | .storing sub => sub :: k.subs
  | .cancelling (some _) todo | .closing (some _) _ todo => todo ++ k.subs
  | .cancelling none todo | .closing none _ todo => todo
  | .returned => []

namespace WsService

/-! ## What a connection holds -/

/-- The subscriptions of a connection. -/
structure Holds (owner : Nat → Option (Nat × String)) (b : PubSubBroker) (c : Nat) (k : WsConn) :
    Prop where
  own : ∀ sub ∈ k.standing, owner sub.s = some (c, sub.channel)
  nodup : (k.standing.map (·.channel)).Nodup
  /-- `handleSubscribe` has looked for the channel -/
  subscribing : ∀ channel, k.pc = .subscribing channel → ∀ sub ∈ k.subs, sub.channel ≠ channel
  closing : ∀ reply sub todo, k.pc = .closing reply sub todo → owner sub.s = some (c, sub.channel)
  standing : ∀ s channel, owner s = some (c, channel) → s ∈ b.subs → ⟨channel, s⟩ ∈ k.standing
  /-- what is not held any more is closed -/
  closed : ∀ s channel, owner s = some (c, channel) → ⟨channel, s⟩ ∈ k.standing ∨
    (∃ reply todo, k.pc = .closing reply ⟨channel, s⟩ todo) ∨ (b.subscription s).closed = true

/-- A step of the broker as its other users make it, for these subscriptions. -/
structure Milder (mine : Nat → Prop) (b b' : PubSubBroker) : Prop where
  subs : ∀ s, mine s → s ∈ b'.subs → s ∈ b.subs
  closed : ∀ s, mine s → (b.subscription s).closed = true → (b'.subscription s).closed = true

theorem Milder.refl (mine : Nat → Prop) (b : PubSubBroker) : Milder mine b b :=
  ⟨fun _ _ h => h, fun _ _ h => h⟩

section
variable {owner owner' : Nat → Option (Nat × String)} {b b' : PubSubBroker} {c : Nat} {k k' : WsConn}

/-- A step of another party. -/
theorem Holds.keep (h : Holds owner b c k)
    (howner : ∀ s channel, owner' s = some (c, channel) ↔ owner s = some (c, channel))
    (hb : Milder (fun s => ∃ channel, owner s = some (c, channel)) b b')
    (hsubs : k'.subs = k.subs) (hpc : k'.pc = k.pc) : Holds owner' b' c k' := by
  have hstanding : k'.standing = k.standing := by
    unfold WsConn.standing
    rw [hsubs, hpc]
  refine ⟨fun sub hm => ?_, ?_, fun channel hp => ?_, fun reply sub todo hp => ?_,
    fun s channel ho hm => ?_, fun s channel ho => ?_⟩
  · rw [hstanding] at hm
    exact (howner _ _).mpr (h.own sub hm)
  · rw [hstanding]
    exact h.nodup
  · rw [hsubs]
    exact h.subscribing channel (hpc ▸ hp)
  · exact (howner _ _).mpr (h.closing reply sub todo (hpc ▸ hp))
  · rw [hstanding]
    have ho := (howner s channel).mp ho
    exact h.standing s channel ho (hb.subs s ⟨channel, ho⟩ hm)
  · rw [hstanding, hpc]
    have ho := (howner s channel).mp ho
    exact (h.closed s channel ho).imp_right (Or.imp_right (hb.closed s ⟨channel, ho⟩))

/-- The connection goes on without touching the broker, with what it holds. -/
theorem Holds.goOn (h : Holds owner b c k) (hstanding : k'.standing = k.standing)
    (hsub : ∀ channel, k'.pc = .subscribing channel → ∀ sub ∈ k'.subs, sub.channel ≠ channel)
    (hno : ∀ reply sub todo, k.pc ≠ .closing reply sub todo)
    (hno' : ∀ reply sub todo, k'.pc ≠ .closing reply sub todo) : Holds owner b c k' := by
  refine ⟨fun sub hm => h.own sub (hstanding ▸ hm), ?_, hsub, fun reply sub todo hp => ?_,
    fun s channel ho hm => ?_, fun s channel ho => ?_⟩
  · rw [hstanding]
    exact h.nodup
  · exact absurd hp (hno' reply sub todo)
  · rw [hstanding]
    exact h.standing s channel ho hm
  · rw [hstanding]
    rcases h.closed s channel ho with hs | ⟨reply, todo, hp⟩ | hc
    · exact .inl hs
    · exact absurd hp (hno reply _ todo)
    · exact .inr (.inr hc)

end

/-- All connections. -/
structure Connected (bl : List PubSubBroker.Label) (st : WsService) : Prop where
  broker : PubSubBroker.SoundAfter bl st.broker
  holds : ∀ c, Holds st.owner st.broker c (st.conn c)
  opened : ∀ s c channel, st.owner s = some (c, channel) →
    ∃ k, wsChannel channel = some k ∧ PubSubBroker.Label.subscribe s k.filter ∈ bl

theorem connected_new : Connected [] {} :=
  ⟨PubSubBroker.sound_new, fun _ => ⟨fun _ h => (by cases h), List.nodup_nil, fun _ h => (by cases h),
    fun _ _ _ h => (by cases h), fun _ _ h => (by cases h), fun _ _ h => (by cases h)⟩,
    fun _ _ _ h => (by cases h)⟩

variable {marshal : JobEvent → Option String} {bl : List PubSubBroker.Label} {st st' : WsService}
  {l : PubSubBroker.Label} {b' : PubSubBroker}

theorem Connected.lt (h : Connected bl st) {s c : Nat} {channel : String}
    (ho : st.owner s = some (c, channel)) : s < st.broker.allocated := by
  obtain ⟨k, -, hm⟩ := h.opened s c channel ho
  exact (h.broker.stands.filter s k.filter hm).1

/-- For the owned subscriptions every step of the broker is a mild one. -/
theorem Connected.milder (h : Connected bl st) (hs : st.broker.step l = some b') (c : Nat) :
    Milder (fun s => ∃ channel, st.owner s = some (c, channel)) st.broker b' := by
  refine ⟨fun s hmine hm => ?_, fun s hmine hc => ?_⟩
  · obtain ⟨channel, ho⟩ := hmine
    rcases PubSubBroker.step_subs hs hm with hm | ⟨f, rfl⟩
    · exact hm
    · obtain ⟨⟨-, rfl⟩, -⟩ := Option.ite_none_right_eq_some.mp hs
      exact absurd (h.lt ho) (Nat.lt_irrefl _)
  · obtain ⟨channel, ho⟩ := hmine
    exact h.broker.closed hs (h.lt ho) hc

/-- A step of the broker that no connection takes. -/
theorem Connected.act (h : Connected bl st) (hs : st.broker.step l = some b')
    (hclose : l.isClose = true → st.broker.done = false) :
    Connected (bl ++ [l]) { st with broker := b' } := by
  refine ⟨h.broker.step hs hclose, fun c => ?_, fun s c channel ho => ?_⟩
  · exact (h.holds c).keep (fun _ _ => Iff.rfl) (h.milder hs c) rfl rfl
  · obtain ⟨k, hk, hm⟩ := h.opened s c channel ho
    exact ⟨k, hk, List.mem_append_left _ hm⟩

/-- Only one connection changes. -/
theorem Connected.setConn (h : Connected bl st) {c : Nat} {k : WsConn}
    (hk : Holds st.owner st.broker c k) : Connected bl (st.setConn c k) := by
  refine ⟨h.broker, fun c' => ?_, h.opened⟩
  by_cases hc : c' = c
  · subst hc
    simpa [WsService.setConn] using hk
  · simpa [WsService.setConn, hc] using h.holds c'

/-- What is written and read does not matter for what is held. -/
theorem Connected.same (h : Connected bl st) (hb : st'.broker = st.broker) (ho : st'.owner = st.owner)
    (hconn : ∀ c, (st'.conn c).subs = (st.conn c).subs ∧ (st'.conn c).pc = (st.conn c).pc) :
    Connected bl st' := by
  refine ⟨hb ▸ h.broker, fun c => ?_, fun s c channel => ?_⟩
  · rw [ho, hb]
    exact (h.holds c).keep (fun _ _ => Iff.rfl) (.refl _ _) (hconn c).1 (hconn c).2
  · rw [ho]
    exact h.opened s c channel

theorem Connected.writeJSON (h : Connected bl st) (c : Nat) (source : Option Nat) (frame : WsFrame)
    (sent : Bool) : Connected bl (st.writeJSON c source frame sent) := by
  unfold WsService.writeJSON
  split
  · exact h.setConn ((h.holds c).keep (fun _ _ => Iff.rfl) (.refl _ _) rfl rfl)
  · exact h

theorem Connected.setForwarder (h : Connected bl st) (s : Nat) (f : WsForwarder) :
    Connected bl (st.setForwarder s f) := h.same rfl rfl fun _ => ⟨rfl, rfl⟩

/-! ## One step -/

theorem load_none {c : Nat} {channel : String} (h : st.load c channel = none) :
    ∀ sub ∈ (st.conn c).subs, sub.channel ≠ channel := by
  intro sub hm
  have hf := List.find?_eq_none.mp h sub hm
  simpa using hf

theorem load_some {c : Nat} {channel : String} {sub : WsSubscription}
    (h : st.load c channel = some sub) : sub ∈ (st.conn c).subs :=
  List.mem_of_find?_eq_some h

/-- A message of the client that needs no lock. -/
theorem Connected.message (h : Connected bl st) {c : Nat} (hp : (st.conn c).pc = .reading)
    (msg : Option WsMessage) (found sent : Bool) :
    Connected bl (st.handleMessage c msg found sent) := by
  have hheld : (st.conn c).standing = (st.conn c).subs := by
    unfold WsConn.standing
    rw [hp]
  have hno : ∀ reply sub todo, (st.conn c).pc ≠ .closing reply sub todo := by
    intro reply sub todo hq
    rw [hp] at hq
    cases hq
  have hsubscribe : ∀ channel, Connected bl (st.handleSubscribe c channel found sent) := by
    intro channel
    unfold handleSubscribe
    cases hl : st.load c channel with
    | some sub => exact h.writeJSON c none _ sent
    | none =>
      cases wsChannel channel with
      | none => exact h.writeJSON c none _ sent
      | some k =>
        simp only
        split
        · exact h.writeJSON c none _ sent
        · refine h.setConn ((h.holds c).goOn ?_ (fun channel' hp' => ?_) hno fun _ _ _ hq => (by cases hq))
          · rw [hheld]
            rfl
          · cases hp'
            exact load_none hl
  have hunsubscribe : ∀ channel, Connected bl (st.handleUnsubscribe c channel sent) := by
    intro channel
    unfold handleUnsubscribe
    cases hl : st.load c channel with
    | none => exact h.writeJSON c none _ sent
    | some sub =>
      have hmem := load_some hl
      have hnodup : (st.conn c).subs.Nodup := List.Nodup.of_map _ (hheld ▸ (h.holds c).nodup)
      have hperm : (sub :: (st.conn c).subs.erase sub).Perm (st.conn c).subs :=
        (List.perm_cons_erase hmem).symm
      refine h.setConn ⟨fun x hx => ?_, ?_, fun _ hq => (by cases hq), fun _ _ _ hq => (by cases hq),
        fun s channel' ho hm => ?_, fun s channel' ho => ?_⟩
      · exact (h.holds c).own x (hheld ▸ hperm.mem_iff.mp hx)
      · exact (hperm.map _).nodup_iff.mpr (hheld ▸ (h.holds c).nodup)
      · have hx := (h.holds c).standing s channel' ho hm
        rw [hheld] at hx
        exact hperm.mem_iff.mpr hx
      · refine ((h.holds c).closed s channel' ho).imp (fun hx => ?_) (Or.imp_left fun hx => ?_)
        · rw [hheld] at hx
          exact hperm.mem_iff.mpr hx
        · obtain ⟨reply, todo, hq⟩ := hx
          exact absurd hq (hno reply _ todo)
  unfold handleMessage
  cases msg with
  | none => exact h.writeJSON c none _ sent
  | some msg =>
    simp only
    split
    · exact hsubscribe msg.channel
    · split
      · exact hunsubscribe msg.channel
      · exact h.writeJSON c none _ sent

/-- `handleSubscribe` gets a new subscription from the broker. -/
theorem Connected.subscribe (h : Connected bl st) {c s : Nat} {channel : String} {k : WsChannel}
    (hp : (st.conn c).pc = .subscribing channel) (hk : wsChannel channel = some k)
    (hs : st.broker.step (.subscribe s k.filter) = some b') :
    Connected (bl ++ [.subscribe s k.filter])
      { ({ st with broker := b' } : WsService).goto c (.storing ⟨channel, s⟩) with
        owner := Function.update st.owner s (some (c, channel)) } := by
  have hnew : ∀ c' channel', st.owner s ≠ some (c', channel') := by
    intro c' channel' ho
    obtain ⟨⟨-, hfresh⟩, -⟩ := Option.ite_none_right_eq_some.mp hs
    have hlt := h.lt ho
    omega
  have hold : ∀ x c' channel', st.owner x = some (c', channel') →
      Function.update st.owner s (some (c, channel)) x = some (c', channel') := by
    intro x c' channel' ho
    have hx : x ≠ s := fun hx => hnew c' channel' (hx ▸ ho)
    rw [Function.update_of_ne hx]
    exact ho
  have hown : ∀ x c' channel', Function.update st.owner s (some (c, channel)) x = some (c', channel') →
      st.owner x = some (c', channel') ∨ x = s ∧ c' = c ∧ channel' = channel := by
    intro x c' channel' ho
    by_cases hx : x = s
    · subst hx
      rw [Function.update_self] at ho
      cases ho
      exact .inr ⟨rfl, rfl, rfl⟩
    · rw [Function.update_of_ne hx] at ho
      exact .inl ho
  have hc := h.holds c
  have hheld : (st.conn c).standing = (st.conn c).subs := by
    unfold WsConn.standing
    rw [hp]
  refine ⟨h.broker.step hs fun hcl => (by cases hcl), fun c' => ?_, fun x c' channel' ho => ?_⟩
  · by_cases hcc : c' = c
    · subst hcc
      simp only [goto, WsService.setConn, Function.update_self]
      refine ⟨fun sub hm => ?_, ?_, fun _ hq => (by cases hq), fun _ _ _ hq => (by cases hq),
        fun x channel' ho hm => ?_, fun x channel' ho => ?_⟩
      · rcases List.mem_cons.mp hm with rfl | hm
        · exact Function.update_self ..
        · exact hold _ _ _ (hc.own sub (hheld ▸ hm))
      · refine List.nodup_cons.mpr ⟨fun hm => ?_, hheld ▸ hc.nodup⟩
        obtain ⟨sub, hsub, he⟩ := List.mem_map.mp hm
        exact hc.subscribing channel hp sub hsub he
      · rcases hown x c' channel' ho with ho | ⟨rfl, -, rfl⟩
        · have hm := hc.standing x channel' ho ((h.milder hs c').subs x ⟨channel', ho⟩ hm)
          rw [hheld] at hm
          exact List.mem_cons_of_mem _ hm
        · exact List.mem_cons_self
      · rcases hown x c' channel' ho with ho | ⟨rfl, -, rfl⟩
        · rcases hc.closed x channel' ho with hm | ⟨reply, todo, hq⟩ | hcl
          · rw [hheld] at hm
            exact .inl (List.mem_cons_of_mem _ hm)
          · rw [hp] at hq
            cases hq
          · exact .inr (.inr ((h.milder hs c').closed x ⟨channel', ho⟩ hcl))
        · exact .inl List.mem_cons_self
    · simp only [goto, WsService.setConn, Function.update_of_ne hcc]
      refine (h.holds c').keep (fun x channel' => ?_) (h.milder hs c') rfl rfl
      constructor
      · intro ho
        rcases hown x c' channel' ho with ho | ⟨-, hcc', -⟩
        · exact ho
        · exact absurd hcc' hcc
      · exact hold x c' channel'
  · rcases hown x c' channel' ho with ho | ⟨rfl, rfl, rfl⟩
    · obtain ⟨k', hk', hm⟩ := h.opened x c' channel' ho
      exact ⟨k', hk', List.mem_append_left _ hm⟩
    · exact ⟨k, hk, List.mem_append_right _ (List.mem_singleton_self _)⟩

/-- `handleSubscribe` stores the subscription. -/
theorem Connected.start (h : Connected bl st) {c : Nat} {sub : WsSubscription}
    (hp : (st.conn c).pc = .storing sub) :
    Connected bl (st.setConn c { st.conn c with subs := sub :: (st.conn c).subs, pc := .reading }) := by
  refine h.setConn ((h.holds c).goOn ?_ (fun _ hq => (by cases hq)) (fun _ _ _ hq => ?_)
    fun _ _ _ hq => (by cases hq))
  · unfold WsConn.standing
    rw [hp]
  · rw [hp] at hq
    cases hq

/-- What is held while one of the subscriptions is cancelled. -/
theorem standing_closing {c : Nat} {reply : Option String} {todo : List WsSubscription}
    {sub : WsSubscription} (hp : (st.conn c).pc = .cancelling reply todo) (hm : sub ∈ todo) :
    (sub :: ({ st.conn c with pc := .closing reply sub (todo.erase sub) } : WsConn).standing).Perm
      (st.conn c).standing := by
  have hperm : (sub :: todo.erase sub).Perm todo := (List.perm_cons_erase hm).symm
  unfold WsConn.standing
  rw [hp]
  cases reply with
  | none => exact hperm
  | some channel => exact hperm.append_right _

/-- A `cancel` takes the subscription out of the map of the broker. -/
theorem Connected.unsubscribe (h : Connected bl st) {c s : Nat} {reply : Option String}
    {todo : List WsSubscription} {sub : WsSubscription}
    (hp : (st.conn c).pc = .cancelling reply todo)
    (hf : todo.find? (fun sub => sub.s = s) = some sub)
    (hs : st.broker.step (.unsubscribe s) = some b') :
    Connected (bl ++ [.unsubscribe s])
      (({ st with broker := b' } : WsService).goto c (.closing reply sub (todo.erase sub))) := by
  have hsub : sub.s = s := by
    have hfound := List.find?_some hf
    simpa using hfound
  subst hsub
  have hmem : sub ∈ todo := List.mem_of_find?_eq_some hf
  have hc := h.holds c
  have hperm := standing_closing hp hmem
  have hheld : sub ∈ (st.conn c).standing := hperm.mem_iff.mp List.mem_cons_self
  have hfirst : ∀ x channel, st.owner x = some (c, channel) → x = sub.s →
      (⟨channel, x⟩ : WsSubscription) = sub := by
    intro x channel ho hx
    subst hx
    have ho' := hc.own sub hheld
    rw [ho] at ho'
    cases ho'
    rfl
  have hrest : ∀ x channel, st.owner x = some (c, channel) → x ≠ sub.s →
      (⟨channel, x⟩ : WsSubscription) ∈ (st.conn c).standing → (⟨channel, x⟩ : WsSubscription) ∈
        ({ st.conn c with pc := .closing reply sub (todo.erase sub) } : WsConn).standing := by
    intro x channel _ hx hm
    rcases List.mem_cons.mp (hperm.mem_iff.mpr hm) with he | hm
    · exact absurd (congrArg (·.s) he) hx
    · exact hm
  refine (h.act hs fun hcl => (by cases hcl)).setConn ⟨fun x hx => ?_, ?_, fun _ hq => (by cases hq),
    fun reply' sub' todo' hq => ?_, fun x channel ho hm => ?_, fun x channel ho => ?_⟩
  · exact hc.own x (hperm.mem_iff.mp (List.mem_cons_of_mem _ hx))
  · have hnodup := (hperm.map (·.channel)).nodup_iff.mpr hc.nodup
    rw [List.map_cons] at hnodup
    exact (List.nodup_cons.mp hnodup).2
  · cases hq
    exact hc.own sub hheld
  · have hx : x ≠ sub.s := fun hx => h.broker.tidy.unsubscribed hs (hx ▸ hm)
    exact hrest x channel ho hx (hc.standing x channel ho ((h.milder hs c).subs x ⟨channel, ho⟩ hm))
  · by_cases hx : x = sub.s
    · rw [hfirst x channel ho hx]
      exact .inr (.inl ⟨reply, _, rfl⟩)
    · rcases hc.closed x channel ho with hm | ⟨reply', todo', hq⟩ | hcl
      · exact .inl (hrest x channel ho hx hm)
      · rw [hp] at hq
        cases hq
      · exact .inr (.inr ((h.milder hs c).closed x ⟨channel, ho⟩ hcl))

/-- And closes it. -/
theorem Connected.close (h : Connected bl st) {c : Nat} {reply : Option String}
    {todo : List WsSubscription} {sub : WsSubscription} (hp : (st.conn c).pc = .closing reply sub todo)
    (hs : st.broker.step (.closeChannel sub.s) = some b') :
    Connected (bl ++ [.closeChannel sub.s])
      (({ st with broker := b' } : WsService).goto c (.cancelling reply todo)) := by
  have hc := h.holds c
  have hstanding : ({ st.conn c with pc := .cancelling reply todo } : WsConn).standing =
      (st.conn c).standing := by
    unfold WsConn.standing
    rw [hp]
    cases reply <;> rfl
  refine (h.act hs fun hcl => (by cases hcl)).setConn ⟨fun x hx => hc.own x (hstanding ▸ hx), ?_,
    fun _ hq => (by cases hq), fun _ _ _ hq => (by cases hq), fun x channel ho hm => ?_,
    fun x channel ho => ?_⟩
  · rw [show ({ ({ st with broker := b' } : WsService).conn c with
      pc := .cancelling reply todo } : WsConn).standing = (st.conn c).standing from hstanding]
    exact hc.nodup
  · have hm := hc.standing x channel ho ((h.milder hs c).subs x ⟨channel, ho⟩ hm)
    exact hstanding ▸ hm
  · rcases hc.closed x channel ho with hm | ⟨reply', todo', hq⟩ | hcl
    · exact .inl (hstanding ▸ hm)
    · rw [hp] at hq
      cases hq
      exact .inr (.inr (h.broker.tidy.closes hs))
    · exact .inr (.inr ((h.milder hs c).closed x ⟨channel, ho⟩ hcl))

/-- **One step.** -/
theorem Connected.step {l : Label} (h : Connected bl st) (hs : st.step marshal l = some st') :
    Connected (bl ++ l.ofBroker.toList) st' := by
  have hact : ∀ {l : PubSubBroker.Label} {st' : WsService}, st.act l = some st' →
      ∃ b', st.broker.step l = some b' ∧ st' = { st with broker := b' } := by
    intro l st' ha
    obtain ⟨b', hb, he⟩ := Option.map_eq_some_iff.mp ha
    exact ⟨b', hb, he.symm⟩
  cases l with
  | accept =>
    cases hs
    have hsame : Connected bl { st with accepted := st.accepted + 1 } :=
      h.same rfl rfl fun _ => ⟨rfl, rfl⟩
    simpa [Label.ofBroker] using hsame
  | other l =>
    obtain ⟨hmay, ha⟩ := Option.ite_none_right_eq_some.mp hs
    obtain ⟨b', hb, rfl⟩ := hact ha
    refine h.act hb fun hcl => ?_
    cases l <;> first | (cases hcl; done) | simpa [othersMay] using hmay
  | message c msg found sent =>
    obtain ⟨⟨-, hp⟩, hs⟩ := Option.ite_none_right_eq_some.mp hs
    cases hs
    simpa [Label.ofBroker] using h.message hp msg found sent
  | hangUp c =>
    obtain ⟨⟨-, hp⟩, hs⟩ := Option.ite_none_right_eq_some.mp hs
    cases hs
    simp only [Label.ofBroker, Option.toList_none, List.append_nil]
    refine h.setConn ((h.holds c).goOn ?_ (fun _ hq => (by cases hq)) (fun _ _ _ hq => ?_)
      fun _ _ _ hq => (by cases hq))
    · unfold WsConn.standing
      rw [hp]
    · rw [hp] at hq
      cases hq
  | expire c =>
    cases hs
    simp only [Label.ofBroker, Option.toList_none, List.append_nil]
    exact h.setConn ((h.holds c).keep (fun _ _ => Iff.rfl) (.refl _ _) rfl rfl)
  | subscribe c s channel =>
    simp only [WsService.step] at hs
    split at hs
    · rename_i channel' k hp hk
      obtain ⟨he, hs⟩ := Option.ite_none_right_eq_some.mp hs
      obtain ⟨st₁, ha, hs⟩ := Option.map_eq_some_iff.mp hs
      obtain ⟨b', hb, rfl⟩ := hact ha
      subst hs he
      simp only [Label.ofBroker, hk, Option.map_some, Option.toList_some]
      exact h.subscribe hp hk hb
    · cases hs
  | start c sent =>
    simp only [WsService.step] at hs
    split at hs
    · rename_i sub hp
      cases hs
      simp only [Label.ofBroker, Option.toList_none, List.append_nil]
      exact ((h.start hp).writeJSON c none _ sent).setForwarder sub.s .waiting
    · cases hs
  | unsubscribe c s =>
    simp only [WsService.step] at hs
    split at hs
    · rename_i reply todo hp
      split at hs
      · rename_i sub hf
        obtain ⟨st₁, ha, hs⟩ := Option.map_eq_some_iff.mp hs
        obtain ⟨b', hb, rfl⟩ := hact ha
        subst hs
        exact h.unsubscribe hp hf hb
      · cases hs
    · cases hs
  | close c s =>
    simp only [WsService.step] at hs
    split at hs
    · rename_i reply sub todo hp
      obtain ⟨rfl, hs⟩ := Option.ite_none_right_eq_some.mp hs
      obtain ⟨st₁, ha, hs⟩ := Option.map_eq_some_iff.mp hs
      obtain ⟨b', hb, rfl⟩ := hact ha
      subst hs
      exact h.close hp hb
    · cases hs
  | reply c sent =>
    simp only [WsService.step] at hs
    split at hs
    · rename_i channel hp
      cases hs
      simp only [Label.ofBroker, Option.toList_none, List.append_nil]
      refine (h.setConn ((h.holds c).goOn ?_ (fun _ hq => (by cases hq)) (fun _ _ _ hq => ?_)
        fun _ _ _ hq => (by cases hq))).writeJSON c none _ sent
      · unfold WsConn.standing
        rw [hp]
        rfl
      · rw [hp] at hq
        cases hq
    · cases hs
  | leave c =>
    simp only [WsService.step] at hs
    split at hs
    · rename_i hp
      cases hs
      simp only [Label.ofBroker, Option.toList_none, List.append_nil]
      refine h.setConn ((h.holds c).goOn ?_ (fun _ hq => (by cases hq)) (fun _ _ _ hq => ?_)
        fun _ _ _ hq => (by cases hq))
      · unfold WsConn.standing
        rw [hp]
      · rw [hp] at hq
        cases hq
    · cases hs
  | receive s m =>
    simp only [WsService.step] at hs
    split at hs
    · obtain ⟨st₁, ha, hs⟩ := Option.map_eq_some_iff.mp hs
      obtain ⟨b', hb, rfl⟩ := hact ha
      subst hs
      exact (h.act hb fun hcl => (by cases hcl)).setForwarder s _
    · cases hs
  | forward s =>
    simp only [WsService.step] at hs
    simp only [Label.ofBroker, Option.toList_none, List.append_nil]
    split at hs
    · split at hs <;> cases hs <;> exact h.same rfl rfl fun _ => ⟨rfl, rfl⟩
    · cases hs
  | write s sent =>
    simp only [WsService.step] at hs
    simp only [Label.ofBroker, Option.toList_none, List.append_nil]
    split at hs
    · rename_i c _ _ _
      cases hs
      exact (h.writeJSON c _ _ sent).setForwarder s .waiting
    · cases hs
  | quit s =>
    simp only [WsService.step] at hs
    simp only [Label.ofBroker, Option.toList_none, List.append_nil]
    split at hs
    · obtain ⟨-, hs⟩ := Option.ite_none_right_eq_some.mp hs
      cases hs
      exact h.setForwarder s .ended
    · cases hs

end WsService
end OjsSqs
