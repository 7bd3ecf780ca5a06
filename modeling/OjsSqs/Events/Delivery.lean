import OjsSqs.Events.Broker

/-! # Delivery of job events

In every run of the broker with one `Close` at most nothing is sent on a closed
channel and no channel is closed twice: a subscription that a publish may still
come to is in the map, and what is in the map is open. What has been sent to a
subscriber, read or not, is one list that grows at its end; a publish adds to it
once at most, and it does so when the subscription stood, the filter admits the
event and the channel has room. -/
namespace OjsSqs
open Calls

/-- The subscription with its channel closed. -/
def Subscription.shut (sub : Subscription) : Subscription :=
  { sub with closed := true, closeOnce := true }

@[simp] theorem Subscription.shut_shut (sub : Subscription) : sub.shut.shut = sub.shut := rfl

theorem Subscription.shut_eq {sub : Subscription} (h : sub.closed = sub.closeOnce)
    (ho : sub.closeOnce = true) : sub.shut = sub := by
  cases sub
  cases h
  cases ho
  rfl

namespace PubSubBroker

/-! ## Closed channels -/

/-- A channel is closed when the function of its `closeOnce` has run. -/
def ClosedByOnce (b : PubSubBroker) : Prop :=
  ∀ s, (b.subscription s).closed = (b.subscription s).closeOnce

/-- The broker with the channels of some subscriptions closed. -/
def shut (l : List Nat) (b : PubSubBroker) : PubSubBroker :=
  { b with subscription := fun s => if s ∈ l then (b.subscription s).shut else b.subscription s }

theorem closeOnceDo_eq {b : PubSubBroker} {s : Nat}
    (h : (b.subscription s).closed = (b.subscription s).closeOnce) :
    b.closeOnceDo s = b.setSubscription s (b.subscription s).shut := by
  rw [closeOnceDo]
  cases ho : (b.subscription s).closeOnce with
  | true =>
    rw [Subscription.shut_eq h ho, if_pos rfl]
    simp only [setSubscription, Function.update_eq_self]
  | false =>
    rw [ho] at h
    rw [h]
    rfl

theorem ClosedByOnce.shut {b : PubSubBroker} (h : b.ClosedByOnce) (l : List Nat) :
    (b.shut l).ClosedByOnce := by
  intro s
  simp only [PubSubBroker.shut]
  split
  · rfl
  · exact h s

/-- `Close` closes the channels of the map. -/
theorem ClosedByOnce.foldr_closeOnceDo {b : PubSubBroker} (h : b.ClosedByOnce) (l : List Nat) :
    l.foldr (fun s b => b.closeOnceDo s) b = b.shut l := by
  induction l with
  | nil => simp [PubSubBroker.shut]
  | cons s l ih =>
    rw [List.foldr_cons, ih, closeOnceDo_eq (h.shut l s)]
    refine congrArg (fun f => { b with subscription := f }) (funext fun x => ?_)
    by_cases hx : x = s
    · subst hx
      simp only [PubSubBroker.shut, Function.update_self, List.mem_cons, true_or, if_true]
      split <;> rfl
    · simp [PubSubBroker.shut, hx]

/-- A round of a publish, on an open channel. -/
theorem offerTo_eq {b : PubSubBroker} {p s : Nat} (h : (b.subscription s).closed = false) :
    b.offerTo p s =
      if (b.subscription s).admits (b.event p) = true ∧ (b.subscription s).ch.length < chCapacity then
        b.setSubscription s
          { b.subscription s with ch := (b.subscription s).ch ++ [⟨p, b.event p⟩] }
      else b := by
  rw [offerTo]
  by_cases ha : (b.subscription s).admits (b.event p) = true
  · by_cases hc : (b.subscription s).ch.length < chCapacity <;> simp [h, ha, hc]
  · simp [ha]

/-! ## What is in the map is open -/

/-- The invariant of the locks and the channels. -/
structure WellLocked (b : PubSubBroker) : Prop where
  closedByOnce : b.ClosedByOnce
  subs_nodup : b.subs.Nodup
  subs_lt : ∀ s ∈ b.subs, s < b.allocated
  fresh : ∀ s, b.allocated ≤ s → b.leaving s = 0
  standing : ∀ s ∈ b.subs, (b.subscription s).closed = false ∧ b.leaving s = 0
  reading_nodup : b.reading.Nodup
  reading_lt : ∀ p ∈ b.reading, p < b.begun
  todo_nodup : ∀ p ∈ b.reading, (b.todo p).Nodup
  todo_subs : ∀ p ∈ b.reading, ∀ s ∈ b.todo p, s ∈ b.subs

theorem tidy_new : WellLocked {} :=
  ⟨fun _ => rfl, List.nodup_nil, fun _ h => (by cases h), fun _ _ => rfl, fun _ h => (by cases h),
    List.nodup_nil, fun _ h => (by cases h), fun _ h => (by cases h), fun _ h => (by cases h)⟩

section
variable {b b' : PubSubBroker}

/-- A channel that holds other events. -/
theorem WellLocked.setCh (h : b.WellLocked) (s : Nat) (ch : List SentEvent) :
    (b.setSubscription s { b.subscription s with ch := ch }).WellLocked := by
  have hsame : ∀ x, ((b.setSubscription s { b.subscription s with ch := ch }).subscription x).closed =
      (b.subscription x).closed := fun x => by
    by_cases hx : x = s
    · subst hx
      simp [setSubscription]
    · simp [setSubscription, hx]
  refine ⟨fun x => ?_, h.subs_nodup, h.subs_lt, h.fresh, fun x hx => ?_, h.reading_nodup, h.reading_lt,
    h.todo_nodup, h.todo_subs⟩
  · rw [hsame, h.closedByOnce x]
    by_cases hx : x = s
    · subst hx
      simp [setSubscription]
    · simp [setSubscription, hx]
  · rw [hsame]
    exact h.standing x hx

/-- One step: the invariant is kept, and only a second `Close` panics. -/
theorem WellLocked.step {l : Label} (h : b.WellLocked) (hs : b.step l = some b')
    (hclose : l.isClose = true → b.done = false) :
    b'.WellLocked ∧ b'.panic = b.panic ∧ b'.done = (b.done || l.isClose) := by
  cases l with
  | subscribe s filter =>
    obtain ⟨⟨hlock, rfl⟩, hs⟩ := Option.ite_none_right_eq_some.mp hs
    cases hs
    have hnew : b.allocated ∉ b.subs := fun hm => Nat.lt_irrefl _ (h.subs_lt _ hm)
    refine ⟨⟨fun x => ?_, List.nodup_cons.mpr ⟨hnew, h.subs_nodup⟩, fun x hx => ?_, fun x hx => ?_,
      fun x hx => ?_, h.reading_nodup, h.reading_lt, h.todo_nodup, fun p hp => ?_⟩, rfl, ?_⟩
    · by_cases hx : x = b.allocated
      · subst hx
        simp [setSubscription]
      · simpa [setSubscription, hx] using h.closedByOnce x
    · rcases List.mem_cons.mp hx with rfl | hx
      · exact Nat.lt_succ_self _
      · exact Nat.lt_succ_of_lt (h.subs_lt x hx)
    · exact h.fresh x (Nat.le_of_succ_le hx)
    · rcases List.mem_cons.mp hx with rfl | hx
      · exact ⟨by simp [setSubscription], h.fresh _ (Nat.le_refl _)⟩
      · have hne : x ≠ b.allocated := fun he => hnew (he ▸ hx)
        simpa [setSubscription, hne] using h.standing x hx
    · exact absurd hp (hlock ▸ List.not_mem_nil)
    · simp [Label.isClose, setSubscription]
  | unsubscribe s =>
    obtain ⟨⟨hlock, hlt⟩, hs⟩ := Option.ite_none_right_eq_some.mp hs
    cases hs
    refine ⟨⟨h.closedByOnce, h.subs_nodup.erase s, fun x hx => h.subs_lt x (List.mem_of_mem_erase hx),
      fun x hx => ?_, fun x hx => ?_, h.reading_nodup, h.reading_lt, h.todo_nodup, fun p hp => ?_⟩, rfl, ?_⟩
    · have hne : x ≠ s := by
        rintro rfl
        exact absurd hlt (Nat.not_lt.mpr hx)
      simpa [hne] using h.fresh x hx
    · obtain ⟨hne, hx⟩ := h.subs_nodup.mem_erase_iff.mp hx
      simpa [hne] using h.standing x hx
    · exact absurd hp (hlock ▸ List.not_mem_nil)
    · simp [Label.isClose]
  | closeChannel s =>
    obtain ⟨hpos, hs⟩ := Option.ite_none_right_eq_some.mp hs
    have hns : s ∉ b.subs := fun hm => by
      have := (h.standing s hm).2
      omega
    rw [closeOnceDo_eq (h.closedByOnce s)] at hs
    cases hs
    refine ⟨⟨fun x => ?_, h.subs_nodup, h.subs_lt, fun x hx => ?_, fun x hx => ?_, h.reading_nodup,
      h.reading_lt, h.todo_nodup, h.todo_subs⟩, rfl, ?_⟩
    · by_cases hx : x = s
      · subst hx
        simp [setSubscription, Subscription.shut]
      · simpa [setSubscription, hx] using h.closedByOnce x
    · have hne : x ≠ s := by
        rintro rfl
        have := h.fresh x hx
        omega
      simpa [setSubscription, hne] using h.fresh x hx
    · have hne : x ≠ s := fun he => hns (he ▸ hx)
      simpa [setSubscription, hne] using h.standing x hx
    · simp [Label.isClose, setSubscription]
  | closeDone =>
    rw [PubSubBroker.step, hclose rfl] at hs
    cases hs
    exact ⟨⟨h.closedByOnce, h.subs_nodup, h.subs_lt, h.fresh, h.standing, h.reading_nodup,
      h.reading_lt, h.todo_nodup, h.todo_subs⟩, rfl, by simp [Label.isClose]⟩
  | closeAll =>
    obtain ⟨⟨hlock, -⟩, hs⟩ := Option.ite_none_right_eq_some.mp hs
    rw [h.closedByOnce.foldr_closeOnceDo] at hs
    cases hs
    refine ⟨⟨h.closedByOnce.shut b.subs, List.nodup_nil, fun x hx => (by cases hx), h.fresh,
      fun x hx => (by cases hx), h.reading_nodup, h.reading_lt, h.todo_nodup, fun p hp => ?_⟩, rfl, ?_⟩
    · exact absurd (show p ∈ b.reading from hp) (hlock ▸ List.not_mem_nil)
    · simp [Label.isClose, PubSubBroker.shut]
  | publish p event =>
    obtain ⟨rfl, hs⟩ := Option.ite_none_right_eq_some.mp hs
    cases hs
    have hnew : b.begun ∉ b.reading := fun hm => Nat.lt_irrefl _ (h.reading_lt _ hm)
    have hne : ∀ {p}, p ∈ b.reading → p ≠ b.begun := fun hp he => hnew (he ▸ hp)
    refine ⟨⟨h.closedByOnce, h.subs_nodup, h.subs_lt, h.fresh, h.standing,
      List.nodup_cons.mpr ⟨hnew, h.reading_nodup⟩, fun p hp => ?_, fun p hp => ?_, fun p hp => ?_⟩, rfl, ?_⟩
    · rcases List.mem_cons.mp hp with rfl | hp
      · exact Nat.lt_succ_self _
      · exact Nat.lt_succ_of_lt (h.reading_lt p hp)
    · rcases List.mem_cons.mp hp with rfl | hp
      · simpa using h.subs_nodup
      · simpa [hne hp] using h.todo_nodup p hp
    · rcases List.mem_cons.mp hp with rfl | hp
      · simp
      · simpa [hne hp] using h.todo_subs p hp
    · simp [Label.isClose]
  | offer p s =>
    obtain ⟨⟨hp, hts⟩, hs⟩ := Option.ite_none_right_eq_some.mp hs
    have hopen := (h.standing s (h.todo_subs p hp s hts)).1
    rw [offerTo_eq hopen] at hs
    have htodo : ∀ c : PubSubBroker, c.WellLocked → c.reading = b.reading → c.subs = b.subs →
        ({ c with todo := Function.update b.todo p ((b.todo p).erase s) } : PubSubBroker).WellLocked := by
      intro c hc hr hsubs
      refine ⟨hc.closedByOnce, hc.subs_nodup, hc.subs_lt, hc.fresh, hc.standing, hc.reading_nodup,
        hc.reading_lt, fun x hx => ?_, fun x hx => ?_⟩
      · replace hx : x ∈ b.reading := hr ▸ hx
        by_cases hxp : x = p
        · subst hxp
          simpa using (h.todo_nodup x hx).erase s
        · simpa [hxp] using h.todo_nodup x hx
      · replace hx : x ∈ b.reading := hr ▸ hx
        by_cases hxp : x = p
        · subst hxp
          simpa [hsubs] using fun y hy => h.todo_subs x hx y (List.mem_of_mem_erase hy)
        · simpa [hxp, hsubs] using h.todo_subs x hx
    split at hs
    · cases hs
      exact ⟨htodo _ (h.setCh s _) rfl rfl, rfl, by simp [Label.isClose, setSubscription]⟩
    · cases hs
      exact ⟨htodo b h rfl rfl, rfl, by simp [Label.isClose]⟩
  | finish p =>
    obtain ⟨⟨hp, -⟩, hs⟩ := Option.ite_none_right_eq_some.mp hs
    cases hs
    have hsub : ∀ {x}, x ∈ b.reading.erase p → x ∈ b.reading := fun hx => List.mem_of_mem_erase hx
    exact ⟨⟨h.closedByOnce, h.subs_nodup, h.subs_lt, h.fresh, h.standing, h.reading_nodup.erase p,
      fun x hx => h.reading_lt x (hsub hx), fun x hx => h.todo_nodup x (hsub hx),
      fun x hx => h.todo_subs x (hsub hx)⟩, rfl, by simp [Label.isClose]⟩
  | receive s m =>
    rw [PubSubBroker.step] at hs
    cases hch : (b.subscription s).ch with
    | nil =>
      rw [hch] at hs
      obtain ⟨-, hs⟩ := Option.ite_none_right_eq_some.mp hs
      cases hs
      exact ⟨h, rfl, by simp [Label.isClose]⟩
    | cons x rest =>
      rw [hch] at hs
      obtain ⟨-, hs⟩ := Option.ite_none_right_eq_some.mp hs
      cases hs
      exact ⟨h.setCh s rest, rfl, by simp [Label.isClose, setSubscription]⟩

/-! ## What a step does to the channels -/

/-- The steps that leave every channel's filter and events as they are. -/
structure SameChannels (b b' : PubSubBroker) : Prop where
  filter : ∀ s, (b'.subscription s).filter = (b.subscription s).filter
  ch : ∀ s, (b'.subscription s).ch = (b.subscription s).ch

theorem SameChannels.refl (b : PubSubBroker) : SameChannels b b := ⟨fun _ => rfl, fun _ => rfl⟩

theorem sameChannels_shut (b : PubSubBroker) (l : List Nat) : SameChannels b (b.shut l) := by
  constructor <;> intro s <;> simp only [PubSubBroker.shut] <;> split <;> rfl

theorem WellLocked.step_closeChannel {s : Nat} (h : b.WellLocked) (hs : b.step (.closeChannel s) = some b') :
    ∃ f n, b' = { b with subscription := f, leaving := n } ∧ SameChannels b b' := by
  obtain ⟨-, hs⟩ := Option.ite_none_right_eq_some.mp hs
  rw [closeOnceDo_eq (h.closedByOnce s)] at hs
  cases hs
  refine ⟨_, _, rfl, fun x => ?_, fun x => ?_⟩ <;>
    · by_cases hx : x = s
      · subst hx
        simp [setSubscription, Subscription.shut]
      · simp [setSubscription, hx]

theorem WellLocked.step_closeAll (h : b.WellLocked) (hs : b.step .closeAll = some b') :
    b.reading = [] ∧ ∃ f n, b' = { b with subscription := f, subs := [], closing := n } ∧
      SameChannels b b' := by
  obtain ⟨⟨hlock, -⟩, hs⟩ := Option.ite_none_right_eq_some.mp hs
  rw [h.closedByOnce.foldr_closeOnceDo] at hs
  cases hs
  have hsame := sameChannels_shut b b.subs
  exact ⟨hlock, _, _, rfl, hsame.filter, hsame.ch⟩

theorem update_ch (b : PubSubBroker) (s : Nat) (ch : List SentEvent) :
    let f := Function.update b.subscription s { b.subscription s with ch := ch }
    (∀ x, (f x).filter = (b.subscription x).filter) ∧
      (∀ x ≠ s, (f x).ch = (b.subscription x).ch) ∧ (f s).ch = ch := by
  refine ⟨fun x => ?_, fun x hx => ?_, ?_⟩
  · by_cases hx : x = s
    · subst hx
      rw [Function.update_self]
    · rw [Function.update_of_ne hx]
  · rw [Function.update_of_ne hx]
  · rw [Function.update_self]

/-- A subscriber takes the first event of its channel, or finds it at its end. -/
theorem step_receive {s : Nat} {m : Option SentEvent} (hs : b.step (.receive s m) = some b') :
    ∃ f, b' = { b with subscription := f } ∧ (∀ x, (f x).filter = (b.subscription x).filter) ∧
      (∀ x ≠ s, (f x).ch = (b.subscription x).ch) ∧
      (b.subscription s).ch = m.toList ++ (f s).ch := by
  rw [PubSubBroker.step] at hs
  cases hch : (b.subscription s).ch with
  | nil =>
    rw [hch] at hs
    obtain ⟨⟨-, hm⟩, hb⟩ := Option.ite_none_right_eq_some.mp hs
    refine ⟨b.subscription, (Option.some.inj hb).symm, fun _ => rfl, fun _ _ => rfl, ?_⟩
    rw [hm, hch]
    rfl
  | cons x rest =>
    rw [hch] at hs
    obtain ⟨hm, hb⟩ := Option.ite_none_right_eq_some.mp hs
    obtain ⟨hfilter, hother, hself⟩ := update_ch b s rest
    refine ⟨_, (Option.some.inj hb).symm, hfilter, hother, ?_⟩
    rw [hm]
    exact congrArg (x :: ·) hself.symm

/-- The round of a publish sends the event, or leaves the channel as it is. -/
theorem WellLocked.step_offer {p s : Nat} (h : b.WellLocked) (hs : b.step (.offer p s) = some b') :
    p ∈ b.reading ∧ s ∈ b.todo p ∧ ∃ f,
      b' = { b with subscription := f, todo := Function.update b.todo p ((b.todo p).erase s) } ∧
      (∀ x, (f x).filter = (b.subscription x).filter) ∧
      (∀ x ≠ s, (f x).ch = (b.subscription x).ch) ∧
      (f s).ch = (b.subscription s).ch ++
        if (b.subscription s).admits (b.event p) = true ∧ (b.subscription s).ch.length < chCapacity
        then [⟨p, b.event p⟩] else [] := by
  obtain ⟨⟨hp, hts⟩, hb⟩ := Option.ite_none_right_eq_some.mp hs
  rw [offerTo_eq (h.standing s (h.todo_subs p hp s hts)).1] at hb
  refine ⟨hp, hts, ?_⟩
  by_cases hsend : (b.subscription s).admits (b.event p) = true ∧
      (b.subscription s).ch.length < chCapacity
  · rw [if_pos hsend] at hb ⊢
    obtain ⟨hfilter, hother, hself⟩ :=
      update_ch b s ((b.subscription s).ch ++ [⟨p, b.event p⟩])
    exact ⟨_, (Option.some.inj hb).symm, hfilter, hother, hself⟩
  · rw [if_neg hsend] at hb ⊢
    exact ⟨b.subscription, (Option.some.inj hb).symm, fun _ => rfl, fun _ _ => rfl,
      (List.append_nil _).symm⟩

/-! ## The state and the steps so far -/

section
variable {ls : List Label} {l : Label} {p p' s : Nat}

@[simp] theorem received_nil : received s [] = [] := rfl

@[simp] theorem received_snoc :
    received s (ls ++ [l]) = received s ls ++ (l.received s).toList := by
  rw [received, List.filterMap_append, received, List.filterMap_cons, List.filterMap_nil]
  cases l.received s <;> rfl

@[simp] theorem subscribed_snoc : subscribed s (ls ++ [l]) = l.subscribed s (subscribed s ls) := by
  rw [subscribed, List.foldl_append]
  rfl

theorem mem_snoc {x : Label} : x ∈ ls ++ [l] ↔ x ∈ ls ∨ x = l := by
  rw [List.mem_append, List.mem_singleton]

/-- No publish begins in a step of another kind. -/
theorem whileSubscribed_snoc (hl : ∀ event, l ≠ .publish p event) :
    WhileSubscribed p s (ls ++ [l]) ↔ WhileSubscribed p s ls := by
  refine happened_snoc.trans (or_iff_left ?_)
  rintro ⟨⟨event, he⟩, -⟩
  exact hl event he

theorem returnedFirst_snoc (hl : ∀ event, l ≠ .publish p' event) :
    ReturnedFirst p p' (ls ++ [l]) ↔ ReturnedFirst p p' ls := by
  refine happened_snoc.trans (or_iff_left ?_)
  rintro ⟨⟨event, he⟩, -⟩
  exact hl event he

theorem whenFull_snoc (hl : l ≠ .offer p s) : WhenFull p s (ls ++ [l]) ↔ WhenFull p s ls :=
  happened_snoc.trans (or_iff_left fun h => hl h.1)

theorem WhenFull.offered (h : WhenFull p s ls) : Label.offer p s ∈ ls := by
  obtain ⟨before, l, after, rfl, rfl, -⟩ := h
  exact List.mem_append_right _ List.mem_cons_self

theorem WhileSubscribed.published (h : WhileSubscribed p s ls) :
    ∃ event, Label.publish p event ∈ ls := by
  obtain ⟨before, l, after, rfl, ⟨event, rfl⟩, -⟩ := h
  exact ⟨event, List.mem_append_right _ List.mem_cons_self⟩

theorem ReturnedFirst.finished (h : ReturnedFirst p p' ls) : Label.finish p ∈ ls := by
  obtain ⟨before, l, after, rfl, -, hf⟩ := h
  exact List.mem_append_left _ hf

/-- What the steps so far say about the publishes. -/
structure Publishes (ls : List Label) (b : PubSubBroker) : Prop where
  published : ∀ p event, Label.publish p event ∈ ls → p < b.begun ∧ b.event p = event
  begun : ∀ p, p < b.begun → Label.publish p (b.event p) ∈ ls
  finished : ∀ p, Label.finish p ∈ ls → p < b.begun ∧ p ∉ b.reading
  offered : ∀ p s, Label.offer p s ∈ ls → p < b.begun ∧ (p ∈ b.reading → s ∉ b.todo p)
  todo : ∀ p ∈ b.reading, ∀ s ∈ b.todo p, WhileSubscribed p s ls

theorem publishes_new : Publishes [] {} :=
  ⟨fun _ _ h => (by cases h), fun _ h => (by cases h), fun _ h => (by cases h),
    fun _ _ h => (by cases h), fun _ h => (by cases h)⟩

/-- A step of no publish. -/
theorem Publishes.keep (h : Publishes ls b) (hbegun : b'.begun = b.begun)
    (hevent : b'.event = b.event) (hreading : b'.reading = b.reading) (htodo : b'.todo = b.todo)
    (hp : ∀ p event, l ≠ .publish p event) (hf : ∀ p, l ≠ .finish p) (ho : ∀ p s, l ≠ .offer p s) :
    Publishes (ls ++ [l]) b' := by
  refine ⟨fun p event hmem => ?_, fun p hlt => ?_, fun p hmem => ?_, fun p s hmem => ?_,
    fun p hr s hs => ?_⟩
  · rw [hbegun, hevent]
    exact h.published p event ((mem_snoc.mp hmem).resolve_right fun he => hp p event he.symm)
  · rw [hevent]
    exact mem_snoc.mpr (.inl (h.begun p (hbegun ▸ hlt)))
  · rw [hbegun, hreading]
    exact h.finished p ((mem_snoc.mp hmem).resolve_right fun he => hf p he.symm)
  · rw [hbegun, hreading, htodo]
    exact h.offered p s ((mem_snoc.mp hmem).resolve_right fun he => ho p s he.symm)
  · rw [hreading] at hr
    rw [htodo] at hs
    exact (h.todo p hr s hs).snoc l

/-- One step. -/
theorem Publishes.step (h : Publishes ls b) (ht : b.WellLocked)
    (hsubs : ∀ s, s ∈ b.subs ↔ subscribed s ls = true) (hs : b.step l = some b') :
    Publishes (ls ++ [l]) b' := by
  cases l with
  | subscribe s filter =>
    obtain ⟨-, hb⟩ := Option.ite_none_right_eq_some.mp hs
    cases hb
    exact h.keep rfl rfl rfl rfl (fun _ _ => nofun) (fun _ => nofun) (fun _ _ => nofun)
  | unsubscribe s =>
    obtain ⟨-, hb⟩ := Option.ite_none_right_eq_some.mp hs
    cases hb
    exact h.keep rfl rfl rfl rfl (fun _ _ => nofun) (fun _ => nofun) (fun _ _ => nofun)
  | closeChannel s =>
    obtain ⟨f, n, rfl, -⟩ := ht.step_closeChannel hs
    exact h.keep rfl rfl rfl rfl (fun _ _ => nofun) (fun _ => nofun) (fun _ _ => nofun)
  | closeDone =>
    rw [PubSubBroker.step] at hs
    split at hs <;> cases hs <;>
      exact h.keep rfl rfl rfl rfl (fun _ _ => nofun) (fun _ => nofun) (fun _ _ => nofun)
  | closeAll =>
    obtain ⟨-, f, n, rfl, -⟩ := ht.step_closeAll hs
    exact h.keep rfl rfl rfl rfl (fun _ _ => nofun) (fun _ => nofun) (fun _ _ => nofun)
  | receive s m =>
    obtain ⟨f, rfl, -⟩ := step_receive hs
    exact h.keep rfl rfl rfl rfl (fun _ _ => nofun) (fun _ => nofun) (fun _ _ => nofun)
  | publish p event =>
    obtain ⟨rfl, hb⟩ := Option.ite_none_right_eq_some.mp hs
    cases hb
    refine ⟨fun p e hmem => ?_, fun p hlt => ?_, fun p hmem => ?_, fun p s hmem => ?_,
      fun p hr s hs => ?_⟩
    · rcases mem_snoc.mp hmem with hmem | he
      · obtain ⟨hlt, he⟩ := h.published p e hmem
        exact ⟨Nat.lt_succ_of_lt hlt, (Function.update_of_ne (Nat.ne_of_lt hlt) ..).trans he⟩
      · cases he
        exact ⟨Nat.lt_succ_self _, Function.update_self ..⟩
    · rcases Nat.lt_succ_iff_lt_or_eq.mp hlt with hlt | rfl
      · refine mem_snoc.mpr (.inl ?_)
        simpa [Nat.ne_of_lt hlt] using h.begun p hlt
      · refine mem_snoc.mpr (.inr ?_)
        simp
    · obtain ⟨hlt, hr⟩ := h.finished p ((mem_snoc.mp hmem).resolve_right nofun)
      refine ⟨Nat.lt_succ_of_lt hlt, fun hmem => ?_⟩
      rcases List.mem_cons.mp hmem with rfl | hmem
      · exact Nat.lt_irrefl _ hlt
      · exact hr hmem
    · obtain ⟨hlt, hr⟩ := h.offered p s ((mem_snoc.mp hmem).resolve_right nofun)
      refine ⟨Nat.lt_succ_of_lt hlt, fun hmem => ?_⟩
      rcases List.mem_cons.mp hmem with rfl | hmem
      · exact absurd hlt (Nat.lt_irrefl _)
      · simpa [Nat.ne_of_lt hlt] using hr hmem
    · rcases List.mem_cons.mp hr with rfl | hr
      · -- the map it goes through is that of the subscriptions that stand
        refine happened_snoc.mpr (.inr ⟨⟨event, rfl⟩, (hsubs s).mp ?_⟩)
        simpa using hs
      · refine (h.todo p hr s ?_).snoc _
        simpa [Nat.ne_of_lt (ht.reading_lt p hr)] using hs
  | offer p s =>
    obtain ⟨hp, hts, f, rfl, -⟩ := ht.step_offer hs
    refine ⟨fun p e hmem => h.published p e ((mem_snoc.mp hmem).resolve_right nofun),
      fun p hlt => mem_snoc.mpr (.inl (h.begun p hlt)),
      fun p hmem => h.finished p ((mem_snoc.mp hmem).resolve_right nofun), fun x y hmem => ?_,
      fun x hr y hy => ?_⟩
    · rcases mem_snoc.mp hmem with hmem | he
      · obtain ⟨hlt, hr⟩ := h.offered x y hmem
        refine ⟨hlt, fun hx hy => hr hx ?_⟩
        by_cases hxp : x = p
        · subst hxp
          exact List.mem_of_mem_erase (by simpa using hy)
        · simpa [hxp] using hy
      · cases he
        refine ⟨ht.reading_lt _ hp, fun _ hy => ?_⟩
        simp only [Function.update_self] at hy
        exact ((ht.todo_nodup _ hp).mem_erase_iff.mp hy).1 rfl
    · refine (h.todo x hr y ?_).snoc _
      by_cases hxp : x = p
      · subst hxp
        exact List.mem_of_mem_erase (by simpa using hy)
      · simpa [hxp] using hy
  | finish p =>
    obtain ⟨⟨hp, -⟩, hb⟩ := Option.ite_none_right_eq_some.mp hs
    cases hb
    refine ⟨fun p e hmem => h.published p e ((mem_snoc.mp hmem).resolve_right nofun),
      fun p hlt => mem_snoc.mpr (.inl (h.begun p hlt)), fun x hmem => ?_, fun x y hmem => ?_,
      fun x hr y hy => (h.todo x (List.mem_of_mem_erase hr) y hy).snoc _⟩
    · rcases mem_snoc.mp hmem with hmem | he
      · obtain ⟨hlt, hr⟩ := h.finished x hmem
        exact ⟨hlt, fun hmem => hr (List.mem_of_mem_erase hmem)⟩
      · cases he
        exact ⟨ht.reading_lt _ hp, fun hmem => (ht.reading_nodup.mem_erase_iff.mp hmem).1 rfl⟩
    · obtain ⟨hlt, hr⟩ := h.offered x y ((mem_snoc.mp hmem).resolve_right nofun)
      exact ⟨hlt, fun hmem => hr (List.mem_of_mem_erase hmem)⟩

/-- What the steps so far say about the subscriptions. -/
structure Stands (ls : List Label) (b : PubSubBroker) : Prop where
  standing : ∀ s, s ∈ b.subs ↔ subscribed s ls = true
  filter : ∀ s f, Label.subscribe s f ∈ ls → s < b.allocated ∧ (b.subscription s).filter = f
  allocated : ∀ s, s < b.allocated → Label.subscribe s (b.subscription s).filter ∈ ls
  unallocated : ∀ s, b.allocated ≤ s → received s ls ++ (b.subscription s).ch = []

theorem stands_new : Stands [] {} :=
  ⟨fun s => ⟨fun h => (by cases h), fun h => (by cases h)⟩, fun _ _ h => (by cases h),
    fun _ h => (by cases h), fun _ _ => rfl⟩

/-- A step that leaves the map as it is. -/
theorem Stands.keep (h : Stands ls b) (hsubs : b'.subs = b.subs) (halloc : b'.allocated = b.allocated)
    (hfilter : ∀ s, (b'.subscription s).filter = (b.subscription s).filter)
    (hl : ∀ s on, l.subscribed s on = on) (hnew : ∀ s f, l ≠ .subscribe s f)
    (hch : ∀ s, b.allocated ≤ s → (l.received s).toList ++ (b'.subscription s).ch = (b.subscription s).ch) :
    Stands (ls ++ [l]) b' := by
  refine ⟨fun s => ?_, fun s f hmem => ?_, fun s hlt => ?_, fun s hle => ?_⟩
  · rw [hsubs, subscribed_snoc, hl]
    exact h.standing s
  · rw [halloc, hfilter]
    exact h.filter s f ((mem_snoc.mp hmem).resolve_right fun he => hnew s f he.symm)
  · rw [hfilter]
    exact mem_snoc.mpr (.inl (h.allocated s (halloc ▸ hlt)))
  · rw [halloc] at hle
    rw [received_snoc, List.append_assoc, hch s hle]
    exact h.unallocated s hle

/-- One step. -/
theorem Stands.step (h : Stands ls b) (ht : b.WellLocked) (hs : b.step l = some b') :
    Stands (ls ++ [l]) b' := by
  cases l with
  | subscribe s filter =>
    obtain ⟨⟨-, rfl⟩, hb⟩ := Option.ite_none_right_eq_some.mp hs
    cases hb
    have hne : ∀ {x}, x < b.allocated → x ≠ b.allocated := Nat.ne_of_lt
    refine ⟨fun x => ?_, fun x f hmem => ?_, fun x hlt => ?_, fun x hle => ?_⟩
    · rw [subscribed_snoc, Label.subscribed, Bool.or_eq_true, ← h.standing x, decide_eq_true_eq, or_comm]
      exact List.mem_cons.trans (or_congr_left eq_comm)
    · rcases mem_snoc.mp hmem with hmem | he
      · obtain ⟨hlt, hf⟩ := h.filter x f hmem
        exact ⟨Nat.lt_succ_of_lt hlt, by simpa [setSubscription, hne hlt] using hf⟩
      · cases he
        exact ⟨Nat.lt_succ_self _, by simp [setSubscription]⟩
    · rcases Nat.lt_succ_iff_lt_or_eq.mp hlt with hlt | rfl
      · refine mem_snoc.mpr (.inl ?_)
        simpa [setSubscription, hne hlt] using h.allocated x hlt
      · refine mem_snoc.mpr (.inr ?_)
        simp [setSubscription]
    · have hx : x ≠ b.allocated := Nat.ne_of_gt hle
      simpa [setSubscription, Label.received, hx] using h.unallocated x (Nat.le_of_succ_le hle)
  | unsubscribe s =>
    obtain ⟨-, hb⟩ := Option.ite_none_right_eq_some.mp hs
    cases hb
    refine ⟨fun x => ?_, fun x f hmem => h.filter x f ((mem_snoc.mp hmem).resolve_right nofun),
      fun x hlt => mem_snoc.mpr (.inl (h.allocated x hlt)), fun x hle => ?_⟩
    · rw [subscribed_snoc, Label.subscribed, Bool.and_eq_true, ← h.standing x, decide_eq_true_eq, and_comm]
      exact ht.subs_nodup.mem_erase_iff.trans (and_congr_left fun _ => ne_comm)
    · simpa [Label.received] using h.unallocated x hle
  | closeChannel s =>
    obtain ⟨f, n, rfl, hsame⟩ := ht.step_closeChannel hs
    exact h.keep rfl rfl hsame.filter (fun _ _ => rfl) (fun _ _ => nofun) fun x _ => hsame.ch x
  | closeDone =>
    rw [PubSubBroker.step] at hs
    split at hs <;> cases hs <;>
      exact h.keep rfl rfl (fun _ => rfl) (fun _ _ => rfl) (fun _ _ => nofun) fun _ _ => rfl
  | closeAll =>
    obtain ⟨-, f, n, rfl, hsame⟩ := ht.step_closeAll hs
    refine ⟨fun x => ?_, fun x g hmem => ?_, fun x hlt => ?_, fun x hle => ?_⟩
    · rw [subscribed_snoc]
      exact ⟨fun hx => (by cases hx), fun hx => (by cases hx)⟩
    · rw [hsame.filter]
      exact h.filter x g ((mem_snoc.mp hmem).resolve_right nofun)
    · rw [hsame.filter]
      exact mem_snoc.mpr (.inl (h.allocated x hlt))
    · rw [received_snoc, List.append_assoc, hsame.ch]
      exact h.unallocated x hle
  | publish p event =>
    obtain ⟨rfl, hb⟩ := Option.ite_none_right_eq_some.mp hs
    cases hb
    exact h.keep rfl rfl (fun _ => rfl) (fun _ _ => rfl) (fun _ _ => nofun) fun _ _ => rfl
  | offer p s =>
    obtain ⟨hp, hts, f, rfl, hfilter, hother, -⟩ := ht.step_offer hs
    have hlt := ht.subs_lt s (ht.todo_subs p hp s hts)
    exact h.keep rfl rfl hfilter (fun _ _ => rfl) (fun _ _ => nofun) fun x hx =>
      hother x (Nat.ne_of_gt (Nat.lt_of_lt_of_le hlt hx))
  | finish p =>
    obtain ⟨-, hb⟩ := Option.ite_none_right_eq_some.mp hs
    cases hb
    exact h.keep rfl rfl (fun _ => rfl) (fun _ _ => rfl) (fun _ _ => nofun) fun _ _ => rfl
  | receive s m =>
    obtain ⟨f, rfl, hfilter, hother, hself⟩ := step_receive hs
    refine h.keep rfl rfl hfilter (fun _ _ => rfl) (fun _ _ => nofun) fun x _ => ?_
    by_cases hx : x = s
    · subst hx
      simp only [Label.received, if_true]
      exact hself.symm
    · simp only [Label.received, if_neg (Ne.symm hx)]
      exact hother x hx

theorem subscribed_allocated (h : subscribed s ls = true) : ∃ f, Label.subscribe s f ∈ ls := by
  induction ls using List.reverseRecOn with
  | nil => cases h
  | append_singleton ls l ih =>
    have hkeep : subscribed s ls = true → ∃ f, Label.subscribe s f ∈ ls ++ [l] := fun hs => by
      obtain ⟨f, hf⟩ := ih hs
      exact ⟨f, mem_snoc.mpr (.inl hf)⟩
    rw [subscribed_snoc] at h
    cases l with
    | subscribe s' f =>
      rcases Bool.or_eq_true_iff.mp h with h | h
      · exact hkeep h
      · obtain rfl := of_decide_eq_true h
        exact ⟨f, mem_snoc.mpr (.inr rfl)⟩
    | unsubscribe s' => exact hkeep (Bool.and_eq_true_iff.mp h).1
    | closeAll => cases h
    | _ => exact hkeep h

theorem Stands.lt_of_whileSubscribed (h : Stands ls b) (hw : WhileSubscribed p s ls) :
    s < b.allocated := by
  obtain ⟨before, l, after, rfl, -, hsub⟩ := hw
  obtain ⟨f, hf⟩ := subscribed_allocated hsub
  exact (h.filter s f (List.mem_append_left _ hf)).1

/-! ## What has come to a subscriber -/

/-- The events sent to a subscriber: those it has read, and then those in its
channel. -/
def arrived (s : Nat) (ls : List Label) (b : PubSubBroker) : List SentEvent :=
  received s ls ++ (b.subscription s).ch

/-- The invariant of one subscriber. -/
structure Arrivals (s : Nat) (ls : List Label) (b : PubSubBroker) : Prop where
  published : ∀ m ∈ arrived s ls b, Label.publish m.call m.event ∈ ls ∧ WhileSubscribed m.call s ls
  admitted : ∀ m ∈ arrived s ls b, (b.subscription s).admits m.event = true
  offered : ∀ m ∈ arrived s ls b, Label.offer m.call s ∈ ls ∧ ¬ WhenFull m.call s ls
  nodup : ((arrived s ls b).map (·.call)).Nodup
  complete : ∀ p, WhileSubscribed p s ls → (b.subscription s).admits (b.event p) = true →
    ¬ WhenFull p s ls → p ∈ b.reading ∧ s ∈ b.todo p ∨ ⟨p, b.event p⟩ ∈ arrived s ls b
  ordered : ∀ m ∈ arrived s ls b, ∀ m' ∈ arrived s ls b, ReturnedFirst m.call m'.call ls →
    [m, m'].Sublist (arrived s ls b)

theorem arrivals_new (s : Nat) : Arrivals s [] {} :=
  ⟨fun _ h => (by cases h), fun _ h => (by cases h), fun _ h => (by cases h), List.nodup_nil,
    fun _ h => absurd h not_happened_nil, fun _ h => (by cases h)⟩

theorem admits_congr {sub sub' : Subscription} (h : sub'.filter = sub.filter) :
    sub'.admits = sub.admits := by
  funext event
  rw [Subscription.admits, Subscription.admits, h]

/-- A step that sends nothing to the subscriber. -/
theorem Arrivals.keep (h : Arrivals s ls b) (harr : arrived s (ls ++ [l]) b' = arrived s ls b)
    (hfilter : (b'.subscription s).filter = (b.subscription s).filter) (hevent : b'.event = b.event)
    (hpending : ∀ p ∈ b.reading, s ∈ b.todo p → p ∈ b'.reading ∧ s ∈ b'.todo p)
    (hp : ∀ p event, l ≠ .publish p event) (ho : ∀ p, l ≠ .offer p s) : Arrivals s (ls ++ [l]) b' := by
  refine ⟨fun m hm => ?_, fun m hm => ?_, fun m hm => ?_, ?_, fun p hw ha hf => ?_,
    fun m hm m' hm' hr => ?_⟩
  · rw [harr] at hm
    obtain ⟨hpub, hw⟩ := h.published m hm
    exact ⟨mem_snoc.mpr (.inl hpub), hw.snoc l⟩
  · rw [harr] at hm
    rw [admits_congr hfilter]
    exact h.admitted m hm
  · rw [harr] at hm
    obtain ⟨hoff, hf⟩ := h.offered m hm
    exact ⟨mem_snoc.mpr (.inl hoff), fun hw => hf ((whenFull_snoc (ho m.call)).mp hw)⟩
  · rw [harr]
    exact h.nodup
  · rw [harr, hevent]
    rw [admits_congr hfilter, hevent] at ha
    exact (h.complete p ((whileSubscribed_snoc (hp p)).mp hw) ha
      (fun hw => hf ((whenFull_snoc (ho p)).mpr hw))).imp_left fun hpend => hpending p hpend.1 hpend.2
  · rw [harr] at hm hm' ⊢
    exact h.ordered m hm m' hm' ((returnedFirst_snoc (hp m'.call)).mp hr)

/-- A publish begins: nothing is sent yet. -/
theorem Arrivals.publish (h : Arrivals s ls b) (hpub : Publishes ls b)
    (hsubs : s ∈ b.subs ↔ subscribed s ls = true) {event : JobEvent}
    (hs : b.step (.publish p event) = some b') : Arrivals s (ls ++ [.publish p event]) b' := by
  obtain ⟨rfl, hb⟩ := Option.ite_none_right_eq_some.mp hs
  replace hb := Option.some.inj hb
  have hsubscription : b'.subscription = b.subscription := by rw [← hb]
  have hevent : b'.event = Function.update b.event b.begun event := by rw [← hb]
  have hreading : b'.reading = b.begun :: b.reading := by rw [← hb]
  have htodo : b'.todo = Function.update b.todo b.begun b.subs := by rw [← hb]
  have hbefore : ∀ {m}, m ∈ arrived s ls b → m.call ≠ b.begun := fun hm =>
    Nat.ne_of_lt (hpub.published _ _ (h.published _ hm).1).1
  have hno : ∀ p, Label.publish b.begun event ≠ .offer p s := fun _ => nofun
  have harr : arrived s (ls ++ [.publish b.begun event]) b' = arrived s ls b := by
    rw [arrived, received_snoc, hsubscription]
    exact congrArg (· ++ _) (List.append_nil _)
  refine ⟨fun m hm => ?_, fun m hm => ?_, fun m hm => ?_, ?_, fun p hw ha hf => ?_,
    fun m hm m' hm' hr => ?_⟩
  · rw [harr] at hm
    obtain ⟨hpub, hw⟩ := h.published m hm
    exact ⟨mem_snoc.mpr (.inl hpub), hw.snoc _⟩
  · rw [harr] at hm
    rw [hsubscription]
    exact h.admitted m hm
  · rw [harr] at hm
    obtain ⟨hoff, hf⟩ := h.offered m hm
    exact ⟨mem_snoc.mpr (.inl hoff), fun hw => hf ((whenFull_snoc (hno _)).mp hw)⟩
  · rw [harr]
    exact h.nodup
  · rw [hreading, htodo]
    rcases happened_snoc.mp hw with hw | ⟨⟨e, he⟩, hsub⟩
    · obtain ⟨e, he⟩ := WhileSubscribed.published hw
      have hne : p ≠ b.begun := Nat.ne_of_lt (hpub.published p e he).1
      rw [harr, hevent, Function.update_of_ne hne, Function.update_of_ne hne]
      rw [hsubscription, hevent, Function.update_of_ne hne] at ha
      refine (h.complete p hw ha fun hw => hf ((whenFull_snoc (hno p)).mpr hw)).imp_left ?_
      exact fun hpend => ⟨List.mem_cons_of_mem _ hpend.1, hpend.2⟩
    · obtain rfl := (Label.publish.inj he).1
      rw [Function.update_self]
      exact .inl ⟨List.mem_cons_self, hsubs.mpr hsub⟩
  · rw [harr] at hm hm' ⊢
    refine h.ordered m hm m' hm' ((returnedFirst_snoc fun e he => ?_).mp hr)
    exact hbefore hm' (Label.publish.inj he).1.symm

/-- A publish comes to the subscriber. -/
theorem Arrivals.offer (h : Arrivals s ls b) (ht : b.WellLocked) (hpub : Publishes ls b)
    (hafter : after ls = some b) (hs : b.step (.offer p s) = some b') :
    Arrivals s (ls ++ [.offer p s]) b' := by
  obtain ⟨hp, hts, f, hb, hfilter, -, hself⟩ := ht.step_offer hs
  have hsubscription : b'.subscription = f := by rw [hb]
  have hevent : b'.event = b.event := by rw [hb]
  have hreading : b'.reading = b.reading := by rw [hb]
  have htodo : b'.todo = Function.update b.todo p ((b.todo p).erase s) := by rw [hb]
  have hadmits : (b'.subscription s).admits = (b.subscription s).admits :=
    admits_congr (by rw [hsubscription, hfilter])
  have hnew : Label.offer p s ∉ ls := fun hmem => (hpub.offered p s hmem).2 hp hts
  have hbefore : ∀ {m}, m ∈ arrived s ls b → m.call ≠ p := fun hm he =>
    hnew (he ▸ (h.offered _ hm).1)
  have hpubl : ∀ x e, Label.offer p s ≠ .publish x e := fun _ _ => nofun
  have hother : ∀ {x}, x ≠ p → (WhenFull x s (ls ++ [.offer p s]) ↔ WhenFull x s ls) := fun hx =>
    whenFull_snoc fun he => hx (Label.offer.inj he).1.symm
  have hfull : WhenFull p s (ls ++ [.offer p s]) ↔ chCapacity ≤ (b.subscription s).ch.length := by
    refine happened_snoc.trans ⟨?_, fun hle => .inr ⟨rfl, b, hafter, hle⟩⟩
    rintro (hw | ⟨-, c, hc, hle⟩)
    · exact absurd (WhenFull.offered hw) hnew
    · rw [hafter, Option.some.injEq] at hc
      exact hc ▸ hle
  have hpending : ∀ x ≠ p, x ∈ b.reading ∧ s ∈ b.todo x →
      x ∈ b.reading ∧ s ∈ Function.update b.todo p ((b.todo p).erase s) x := fun x hx hpend => by
    rw [Function.update_of_ne hx]
    exact hpend
  -- the event is at the end of what has arrived when it is sent
  by_cases hsend : (b.subscription s).admits (b.event p) = true ∧
      (b.subscription s).ch.length < chCapacity
  · rw [if_pos hsend] at hself
    have harr : arrived s (ls ++ [.offer p s]) b' = arrived s ls b ++ [⟨p, b.event p⟩] := by
      rw [arrived, received_snoc, hsubscription, hself, arrived, List.append_assoc, List.append_assoc]
      rfl
    refine ⟨fun m hm => ?_, fun m hm => ?_, fun m hm => ?_, ?_, fun x hw ha hf => ?_,
      fun m hm m' hm' hr => ?_⟩
    · rw [harr] at hm
      rcases List.mem_append.mp hm with hm | hm
      · obtain ⟨hpub, hw⟩ := h.published m hm
        exact ⟨mem_snoc.mpr (.inl hpub), hw.snoc _⟩
      · obtain rfl := List.mem_singleton.mp hm
        exact ⟨mem_snoc.mpr (.inl (hpub.begun p (ht.reading_lt p hp))), (hpub.todo p hp s hts).snoc _⟩
    · rw [harr] at hm
      rw [hadmits]
      rcases List.mem_append.mp hm with hm | hm
      · exact h.admitted m hm
      · obtain rfl := List.mem_singleton.mp hm
        exact hsend.1
    · rw [harr] at hm
      rcases List.mem_append.mp hm with hm | hm
      · obtain ⟨hoff, hf⟩ := h.offered m hm
        exact ⟨mem_snoc.mpr (.inl hoff), fun hw => hf ((hother (hbefore hm)).mp hw)⟩
      · obtain rfl := List.mem_singleton.mp hm
        exact ⟨mem_snoc.mpr (.inr rfl), fun hw => absurd (hfull.mp hw) (Nat.not_le.mpr hsend.2)⟩
    · rw [harr, List.map_append, List.nodup_append]
      refine ⟨h.nodup, List.nodup_singleton _, fun x hx y hy => ?_⟩
      obtain ⟨m, hm, rfl⟩ := List.mem_map.mp hx
      obtain rfl := List.mem_singleton.mp hy
      exact hbefore hm
    · rw [harr, hreading, htodo, hevent]
      rw [hadmits, hevent] at ha
      by_cases hx : x = p
      · subst hx
        exact .inr (List.mem_append_right _ (List.mem_singleton.mpr rfl))
      · refine (h.complete x ((whileSubscribed_snoc (hpubl x)).mp hw) ha
          fun hw => hf ((hother hx).mpr hw)).imp (hpending x hx) fun hm => ?_
        exact List.mem_append_left _ hm
    · rw [harr] at hm hm' ⊢
      replace hr := (returnedFirst_snoc (hpubl m'.call)).mp hr
      rcases List.mem_append.mp hm with hm | hm
      · rcases List.mem_append.mp hm' with hm' | hm'
        · exact (h.ordered m hm m' hm' hr).trans (List.sublist_append_left _ _)
        · obtain rfl := List.mem_singleton.mp hm'
          exact (List.singleton_sublist.mpr hm).append (List.Sublist.refl _)
      · -- it has not returned
        obtain rfl := List.mem_singleton.mp hm
        exact absurd hp (hpub.finished p (ReturnedFirst.finished hr)).2
  · rw [if_neg hsend, List.append_nil] at hself
    have harr : arrived s (ls ++ [.offer p s]) b' = arrived s ls b := by
      rw [arrived, received_snoc, hsubscription, hself]
      exact congrArg (· ++ _) (List.append_nil _)
    refine ⟨fun m hm => ?_, fun m hm => ?_, fun m hm => ?_, ?_, fun x hw ha hf => ?_,
      fun m hm m' hm' hr => ?_⟩
    · rw [harr] at hm
      obtain ⟨hpub, hw⟩ := h.published m hm
      exact ⟨mem_snoc.mpr (.inl hpub), hw.snoc _⟩
    · rw [harr] at hm
      rw [hadmits]
      exact h.admitted m hm
    · rw [harr] at hm
      obtain ⟨hoff, hf⟩ := h.offered m hm
      exact ⟨mem_snoc.mpr (.inl hoff), fun hw => hf ((hother (hbefore hm)).mp hw)⟩
    · rw [harr]
      exact h.nodup
    · rw [harr, hreading, htodo, hevent]
      rw [hadmits, hevent] at ha
      by_cases hx : x = p
      · subst hx
        exact absurd (hfull.mpr (Nat.le_of_not_lt fun hlt => hsend ⟨ha, hlt⟩)) hf
      · exact (h.complete x ((whileSubscribed_snoc (hpubl x)).mp hw) ha
          fun hw => hf ((hother hx).mpr hw)).imp_left (hpending x hx)
    · rw [harr] at hm hm' ⊢
      exact h.ordered m hm m' hm' ((returnedFirst_snoc (hpubl m'.call)).mp hr)

/-- One step, seen by one subscriber. -/
theorem Arrivals.step (h : Arrivals s ls b) (ht : b.WellLocked) (hpub : Publishes ls b)
    (hstands : Stands ls b) (hafter : after ls = some b) (hs : b.step l = some b') :
    Arrivals s (ls ++ [l]) b' := by
  have hquiet : (b'.subscription s).ch = (b.subscription s).ch → l.received s = none →
      arrived s (ls ++ [l]) b' = arrived s ls b := fun hch hl => by
    rw [arrived, received_snoc, hch, hl]
    exact congrArg (· ++ _) (List.append_nil _)
  cases l with
  | subscribe s' f =>
    obtain ⟨⟨-, rfl⟩, hb⟩ := Option.ite_none_right_eq_some.mp hs
    replace hb := Option.some.inj hb
    by_cases hss : s = b.allocated
    · -- it is a new subscription: nothing has been published to it
      subst hss
      have hnone : arrived b.allocated (ls ++ [.subscribe b.allocated f]) b' = [] := by
        have hrec := (List.append_eq_nil_iff.mp (hstands.unallocated _ (Nat.le_refl _))).1
        rw [arrived, received_snoc, hrec, ← hb]
        simp [setSubscription, Label.received]
      refine ⟨fun m hm => ?_, fun m hm => ?_, fun m hm => ?_, ?_, fun p hw => ?_, fun m hm => ?_⟩
      · exact absurd (hnone ▸ hm) List.not_mem_nil
      · exact absurd (hnone ▸ hm) List.not_mem_nil
      · exact absurd (hnone ▸ hm) List.not_mem_nil
      · rw [hnone]
        exact List.nodup_nil
      · have hnot : ∀ event, Label.subscribe b.allocated f ≠ .publish p event := fun _ => nofun
        have hlt := hstands.lt_of_whileSubscribed ((whileSubscribed_snoc hnot).mp hw)
        exact absurd hlt (Nat.lt_irrefl _)
      · exact absurd (hnone ▸ hm) List.not_mem_nil
    · have hsub : b'.subscription s = b.subscription s := by
        rw [← hb]
        exact Function.update_of_ne hss ..
      exact h.keep (hquiet (by rw [hsub]) rfl) (by rw [hsub]) (by rw [← hb]; rfl)
        (fun p hr ht => by rw [← hb]; exact ⟨hr, ht⟩) (fun _ _ => nofun) fun _ => nofun
  | unsubscribe s' =>
    obtain ⟨-, hb⟩ := Option.ite_none_right_eq_some.mp hs
    cases hb
    exact h.keep (hquiet rfl rfl) rfl rfl (fun _ hr ht => ⟨hr, ht⟩) (fun _ _ => nofun) fun _ => nofun
  | closeChannel s' =>
    obtain ⟨f, n, rfl, hsame⟩ := ht.step_closeChannel hs
    exact h.keep (hquiet (hsame.ch s) rfl) (hsame.filter s) rfl (fun _ hr ht => ⟨hr, ht⟩)
      (fun _ _ => nofun) fun _ => nofun
  | closeDone =>
    rw [PubSubBroker.step] at hs
    split at hs <;> cases hs <;>
      exact h.keep (hquiet rfl rfl) rfl rfl (fun _ hr ht => ⟨hr, ht⟩) (fun _ _ => nofun) fun _ => nofun
  | closeAll =>
    obtain ⟨-, f, n, rfl, hsame⟩ := ht.step_closeAll hs
    exact h.keep (hquiet (hsame.ch s) rfl) (hsame.filter s) rfl (fun _ hr ht => ⟨hr, ht⟩)
      (fun _ _ => nofun) fun _ => nofun
  | publish p event => exact h.publish hpub (hstands.standing s) hs
  | offer p s' =>
    by_cases hss : s' = s
    · subst hss
      exact h.offer ht hpub hafter hs
    · obtain ⟨hp, hts, f, rfl, hfilter, hother, -⟩ := ht.step_offer hs
      refine h.keep (hquiet (hother s (Ne.symm hss)) rfl) (hfilter s) rfl (fun x hr ht => ⟨hr, ?_⟩)
        (fun _ _ => nofun) fun x he => hss (Label.offer.inj he).2
      by_cases hx : x = p
      · subst hx
        simpa using (List.mem_erase_of_ne (Ne.symm hss)).mpr ht
      · simpa [hx] using ht
  | finish p =>
    obtain ⟨⟨hp, hdone⟩, hb⟩ := Option.ite_none_right_eq_some.mp hs
    cases hb
    refine h.keep (hquiet rfl rfl) rfl rfl (fun x hr ht => ⟨?_, ht⟩) (fun _ _ => nofun) fun _ => nofun
    refine (List.mem_erase_of_ne fun hx => ?_).mpr hr
    rw [hx, hdone] at ht
    cases ht
  | receive s' m =>
    obtain ⟨f, rfl, hfilter, hother, hself⟩ := step_receive hs
    refine h.keep ?_ (hfilter s) rfl (fun _ hr ht => ⟨hr, ht⟩) (fun _ _ => nofun) fun _ => nofun
    by_cases hss : s' = s
    · -- what is read moves from the channel to what has been read
      subst hss
      rw [arrived, received_snoc, List.append_assoc, arrived, hself]
      simp [Label.received]
    · exact hquiet (hother s (Ne.symm hss)) (if_neg hss)

end

end

/-! ## Delivery -/

/-- What a subscriber has read is what it should have read. -/
structure Delivered (s : Nat) (ls : List Label) (b : PubSubBroker) : Prop where
  /-- no publish is read twice -/
  once : ((received s ls).map (·.call)).Nodup
  /-- a publish that had returned before another began is read first -/
  ordered : ∀ m ∈ received s ls, ∀ m' ∈ received s ls, ReturnedFirst m.call m'.call ls →
    [m, m'].Sublist (received s ls)
  /-- what is read was published while the subscription stood and the channel had
  room, matches, and is not in the channel any more -/
  sound : ∀ m ∈ received s ls, Label.publish m.call m.event ∈ ls ∧ WhileSubscribed m.call s ls ∧
    (∃ f, Label.subscribe s f ∈ ls ∧ Subscription.admits { filter := f } m.event = true) ∧
    ¬ WhenFull m.call s ls ∧ m ∉ (b.subscription s).ch
  /-- and once its publish has returned, everything of this kind is read -/
  complete : ∀ m, Label.publish m.call m.event ∈ ls → Label.finish m.call ∈ ls →
    WhileSubscribed m.call s ls →
    (∃ f, Label.subscribe s f ∈ ls ∧ Subscription.admits { filter := f } m.event = true) →
    ¬ WhenFull m.call s ls → m ∉ (b.subscription s).ch → m ∈ received s ls

section
variable {b : PubSubBroker} {ls : List Label} {s : Nat}

theorem Arrivals.delivered (h : Arrivals s ls b) (hpub : Publishes ls b) (hstands : Stands ls b) :
    Delivered s ls b := by
  have hleft : ∀ {m}, m ∈ received s ls → m ∈ arrived s ls b := fun hm => List.mem_append_left _ hm
  have hnodup := h.nodup
  rw [arrived, List.map_append, List.nodup_append] at hnodup
  obtain ⟨hread, -, hapart⟩ := hnodup
  have hunread : ∀ m ∈ received s ls, m ∉ (b.subscription s).ch := fun m hm hch =>
    hapart _ (List.mem_map_of_mem hm) _ (List.mem_map_of_mem hch) rfl
  refine ⟨hread, fun m hm m' hm' hr => ?_, fun m hm => ?_, fun m hmp hfin hw hmatch hfull hch => ?_⟩
  · -- both are in the first part of what has arrived
    have hall := h.ordered m (hleft hm) m' (hleft hm') hr
    have hfilter := hall.filter (fun x => decide (x ∈ received s ls))
    rw [arrived, List.filter_append] at hfilter
    have hself : (received s ls).filter (fun x => decide (x ∈ received s ls)) = received s ls :=
      List.filter_eq_self.mpr fun x hx => decide_eq_true hx
    have hother : (b.subscription s).ch.filter (fun x => decide (x ∈ received s ls)) = [] :=
      List.filter_eq_nil_iff.mpr fun x hx hr => hunread x (of_decide_eq_true hr) hx
    rw [hself, hother, List.append_nil] at hfilter
    simpa [hm, hm'] using hfilter
  · obtain ⟨hmp, hw⟩ := h.published m (hleft hm)
    obtain ⟨-, hfull⟩ := h.offered m (hleft hm)
    have hlt := hstands.lt_of_whileSubscribed hw
    exact ⟨hmp, hw, ⟨_, hstands.allocated s hlt, h.admitted m (hleft hm)⟩, hfull, hunread m hm⟩
  · obtain ⟨f, hf, ha⟩ := hmatch
    obtain ⟨-, hevent⟩ := hpub.published m.call m.event hmp
    have hadmits : (b.subscription s).admits (b.event m.call) = true := by
      have hsame : (b.subscription s).admits = Subscription.admits { filter := f } :=
        admits_congr (hstands.filter s f hf).2
      rw [hevent, hsame]
      exact ha
    rcases h.complete m.call hw hadmits hfull with ⟨hr, -⟩ | hm
    · exact absurd hr (hpub.finished m.call hfin).2
    · rw [hevent] at hm
      exact (List.mem_append.mp hm).resolve_right hch

/-- **Delivery.** In every run of publishes, subscribes, unsubscribes and reads
with one `Close` at most, in any order of their steps, nothing is sent on a
closed channel and no channel is closed twice, and each subscriber reads the
matching events published while it is subscribed, but those that found its
channel full and those it has not read. -/
theorem pubsub_delivers (ls : List Label) (b : PubSubBroker) (hrun : after ls = some b)
    (hclose : ls.countP Label.isClose ≤ 1) : b.panic = none ∧ ∀ s, Delivered s ls b := by
  suffices h : ls.countP Label.isClose ≤ 1 → b.WellLocked ∧ b.panic = none ∧
      (b.done = true → ls.countP Label.isClose = 1) ∧ Publishes ls b ∧ Stands ls b ∧
      ∀ s, Arrivals s ls b by
    obtain ⟨-, hpanic, -, hpub, hstands, harr⟩ := h hclose
    exact ⟨hpanic, fun s => (harr s).delivered hpub hstands⟩
  clear hclose
  induction ls using List.reverseRecOn generalizing b with
  | nil =>
    cases hrun
    exact fun _ => ⟨tidy_new, rfl, fun h => (by cases h), publishes_new, stands_new, arrivals_new⟩
  | append_singleton ls l ih =>
    intro hcount
    rw [after, List.foldlM_append] at hrun
    obtain ⟨c, hc, hs⟩ := Option.bind_eq_some_iff.mp hrun
    replace hs : c.step l = some b := by simpa using hs
    rw [List.countP_append, List.countP_singleton] at hcount ⊢
    obtain ⟨ht, hpanic, hdone, hpub, hstands, harr⟩ := ih c hc (by omega)
    have hfirst : l.isClose = true → c.done = false := fun hl => by
      rw [hl, if_pos rfl] at hcount
      cases hd : c.done with
      | false => rfl
      | true =>
        have := hdone hd
        omega
    obtain ⟨ht', hpanic', hdone'⟩ := ht.step hs hfirst
    refine ⟨ht', hpanic'.trans hpanic, fun hd => ?_, hpub.step ht hstands.standing hs,
      hstands.step ht hs, fun s => (harr s).step ht hpub hstands hc hs⟩
    rw [hdone', Bool.or_eq_true] at hd
    rcases hd with hd | hl
    · have hone := hdone hd
      have hl : ¬ l.isClose = true := fun hl => by
        rw [if_pos hl] at hcount
        omega
      rw [if_neg hl, hone]
    · rw [if_pos hl] at hcount ⊢
      omega

end

/-- Two publishes next to each other, an unsubscribe and a `Close`. -/
def twoPublishes : List Label :=
  let queued : JobEvent := { eventType := "job.enqueued", jobID := "j1", queue := "default" }
  let mailed : JobEvent := { eventType := "job.enqueued", jobID := "j2", queue := "mail" }
  [.subscribe 0 none, .subscribe 1 (some fun event => event.queue = "mail"),
    .publish 0 queued, .offer 0 0, .publish 1 mailed, .offer 1 1, .offer 1 0, .finish 1,
    .receive 0 (some ⟨0, queued⟩), .offer 0 1, .finish 0, .unsubscribe 1, .closeDone, .closeAll,
    .closeChannel 1, .receive 0 (some ⟨1, mailed⟩), .receive 0 none]

/-- The first subscriber has read both events; the second has left one unread. -/
theorem pubsub_delivers_two : ∃ b, (received 0 twoPublishes).map (·.call) = [0, 1] ∧
    (b.subscription 1).ch.map (·.call) = [1] ∧ b.panic = none ∧ ∀ s, Delivered s twoPublishes b := by
  have hrun : ∃ b, after twoPublishes = some b ∧ (b.subscription 1).ch.map (·.call) = [1] :=
    ⟨_, rfl, rfl⟩
  obtain ⟨b, hb, hch⟩ := hrun
  exact ⟨b, rfl, hch, pubsub_delivers twoPublishes b hb (by decide)⟩

end PubSubBroker
end OjsSqs
