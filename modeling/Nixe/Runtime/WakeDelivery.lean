import Nixe.Runtime.EventDelivery
import Nixe.Effect.Behaviour

/-!
# One wake for every wait

What the steps of `EventDelivery` add up to, over any interleaving of the threads.

## The invariants

A group that has won is on the way to its message or has it, since only a callback sets `won`
while the group is registered. A group that has not won is still to be notified: of an event that it
has been registered at, it either has a watcher there or a callback that is going to run. Both
survive the cancellation of other groups, because a registration that is dropped removes a watcher
of its own group.

The second part needs room in the inbox at the moment a callback publishes: a callback that finds
the inbox full sets `overflowed`, but its group has won and nothing publishes its wake again.
-/

namespace Nixe.Runtime

open Std Scheduler EventDelivery Function List

variable {ι : Type} {s s' : EventDelivery} {place place' : DeliveryPlace} {g : GroupId}
  {w : Watcher} {c d : DeliveryThreads ι}

/-! ## Groups that have been allocated -/

/-- The group occurs in the shared state. -/
inductive EventDelivery.Mentions (s : EventDelivery) : GroupId → Prop
  | live {token : WakeToken} {g : GroupId} (h : s.waitGroups token = some g) : s.Mentions g
  | won {g : GroupId} (h : s.Won g) : s.Mentions g
  | watched {e : EventId} {id : Nat} {w : Watcher} (h : s.WatchedBy e id w) : s.Mentions w.group
  | owner {g : GroupId} {r : EventWatchRegistration} (h : r ∈ (s.groups g).registrations) :
      s.Mentions g
  | registered {e : EventId} {g : GroupId} (h : g ∈ s.history.registered e) : s.Mentions g
  | signalled {g : GroupId} (h : g ∈ s.history.signalled) : s.Mentions g
  | published {m : SequencedExternalEvent} {g : GroupId}
      (h : (m, some g) ∈ s.history.published) : s.Mentions g

/-- The thread has something to do with the group. -/
inductive Duty.Mentions (duty : Duty) : GroupId → Prop
  | pending {w : Watcher} (h : w ∈ duty.pending) : duty.Mentions w.group
  | winner {w : Watcher} (h : duty.winner = some w) : duty.Mentions w.group
  | held {g : GroupId} {r : EventWatchRegistration} (h : (g, r) ∈ duty.held) : duty.Mentions g
  | closing {g : GroupId} (h : duty.closing = some g) : duty.Mentions g
  | entering {w : Watcher} (h : duty.entering = some w) : duty.Mentions w.group

variable {m : SequencedExternalEvent} {call : DeliveryCall} {token : WakeToken} {capacity : Nat}
  {es : List ((ι × DeliveryCall) × DeliveryAnswer)}

/-- A message of a group was published before, or is the one of the thread that moves. -/
theorem DeliveryEffect.published_of (h : DeliveryEffect s place place' s')
    (hm : (m, some g) ∈ s'.history.published) :
    (m, some g) ∈ s.history.published ∨
      ∃ w, place.duty.winner = some w ∧ w.group = g ∧ m.event = w.message := by
  obtain ⟨w, message, hw, hevent, hpublished⟩ | ⟨message, -, hpublished⟩ | ⟨hpublished, -⟩ :=
    h.published_eq
  · rw [hpublished, mem_append, mem_singleton] at hm
    obtain hm | hm := hm
    · exact .inl hm
    · cases hm
      exact .inr ⟨w, hw, rfl, hevent⟩
  · rw [hpublished, mem_append, mem_singleton] at hm
    obtain hm | hm := hm
    · exact .inl hm
    · cases hm
  · exact .inl (hpublished ▸ hm)

/-- Every group that a step brings up was there before or is new. -/
theorem DeliveryEffect.mentions_of (h : DeliveryEffect s place place' s')
    (hg : s'.Mentions g ∨ place'.duty.Mentions g) :
    (s.Mentions g ∨ place.duty.Mentions g) ∨ s.Allocates s' g := by
  have hlive {token : WakeToken} {g : GroupId} (htoken : s'.waitGroups token = some g) :
      (s.Mentions g ∨ place.duty.Mentions g) ∨ s.Allocates s' g := by
    obtain hold | ⟨hnew, -⟩ := h.waitGroups htoken
    · exact .inl (.inl (.live hold))
    · exact .inr hnew
  have hpending {w : Watcher} (hw : w ∈ place'.duty.pending) :
      (s.Mentions w.group ∨ place.duty.Mentions w.group) ∨ s.Allocates s' w.group := by
    obtain hold | ⟨e, id, hw⟩ | ⟨e, rfl⟩ := h.pending_of hw
    · exact .inl (.inr (.pending hold))
    · exact .inl (.inl (.watched hw))
    · exact .inl (.inr (.entering rfl))
  rcases hg with (htoken | hwon | hw | ho | hr | hs | hp) | (hw | hw | hr | hc | he)
  · exact hlive htoken
  · obtain hold | ⟨w, hw, rfl⟩ | hc := h.won_of hwon
    · exact .inl (.inl (.won hold))
    · exact .inl (.inr (.pending (h.winner_of hw).2.2))
    · exact .inl (.inr (.closing hc))
  · obtain hold | ⟨rfl, -⟩ := h.watchedBy_of hw
    · exact .inl (.inl (.watched hold))
    · exact .inl (.inr (.entering rfl))
  · obtain hold | hheld := h.registrations_of ho
    · exact .inl (.inl (.owner hold))
    · exact .inl (.inr (.held hheld))
  · obtain hold | ⟨w, rfl, rfl, -⟩ := h.registered_of hr
    · exact .inl (.inl (.registered hold))
    · exact .inl (.inr (.entering rfl))
  · obtain hold | ⟨e, he, -⟩ | ⟨w, hw, rfl⟩ := h.signalled_of hs
    · exact .inl (.inl (.signalled hold))
    · exact .inl (.inl (.registered he))
    · exact hpending hw
  · obtain hold | ⟨w, hw, rfl, -⟩ := h.published_of hp
    · exact .inl (.inl (.published hold))
    · exact .inl (.inr (.winner hw))
  · exact hpending hw
  · exact .inl (.inr (.pending (h.winner_of hw).2.2))
  · obtain hold | howner | ⟨e, w, rfl, rfl, -⟩ := h.held_of hr
    · exact .inl (.inr (.held hold))
    · exact .inl (.inl (.owner howner))
    · exact .inl (.inr (.entering rfl))
  · obtain hold | hwon | ⟨token, htoken, -⟩ := h.closing_of hc
    · exact .inl (.inr (.closing hold))
    · exact .inl (.inl (.won hwon))
    · exact .inl (.inl (.live htoken))
  · exact hlive (h.entering_of he)

/-- The step of thread `t` in a configuration. -/
structure DeliveryMove (c : DeliveryThreads ι) (t : ι) (d : DeliveryThreads ι) : Prop where
  effect : DeliveryEffect c.shared (c.locals t) (d.locals t) d.shared
  others : ∀ u, u ≠ t → d.locals u = c.locals u

theorem deliveryMove_of_step [DecidableEq ι] {t : ι} {answer : DeliveryAnswer}
    (h : deliveryStep.machine c (t, call) = some (answer, d)) : DeliveryMove c t d := by
  obtain ⟨place', s', hact, rfl⟩ := ThreadStep.machine_eq_some_iff.mp h
  refine ⟨?_, fun u hu ↦ update_of_ne hu _ _⟩
  simp only [update_self]
  revert hact
  fun_cases deliveryStep t call (c.locals t) c.shared
  case case1 => exact startCall_effect
  case case2 => exact resumeCall_effect
  case case3 => exact nofun

/-- Every group that occurs anywhere has been allocated. -/
structure Known (c : DeliveryThreads ι) : Prop where
  shared : ∀ {g}, c.shared.Mentions g → g < c.shared.nextGroup
  locals : ∀ {t g}, (c.locals t).duty.Mentions g → g < c.shared.nextGroup

variable {t : ι}

theorem Known.step (hc : Known c) (h : DeliveryMove c t d) : Known d := by
  have hmoved {g : GroupId} (hg : d.shared.Mentions g ∨ (d.locals t).duty.Mentions g) :
      g < d.shared.nextGroup := by
    obtain (hg | hg) | ⟨hg, hnext⟩ := h.effect.mentions_of hg
    · exact Nat.lt_of_lt_of_le (hc.shared hg) h.effect.nextGroup_le
    · exact Nat.lt_of_lt_of_le (hc.locals hg) h.effect.nextGroup_le
    · rw [hg, hnext]
      exact Nat.lt_succ_self _
  refine ⟨fun hg ↦ hmoved (.inl hg), fun {u g} hg ↦ ?_⟩
  by_cases hu : u = t
  · subst u
    exact hmoved (.inr hg)
  · rw [h.others u hu] at hg
    exact Nat.lt_of_lt_of_le (hc.locals hg) h.effect.nextGroup_le

/-! ## Groups from one step to the next -/

theorem not_allocates (hg : g < c.shared.nextGroup) : ¬c.shared.Allocates d.shared g :=
  fun hnew ↦ Nat.ne_of_lt hg hnew.1

theorem DeliveryMove.won_stays (h : DeliveryMove c t d) (hc : Known c) (hwon : c.shared.Won g) :
    d.shared.Won g :=
  (h.effect.won_stays hwon).resolve_right (not_allocates (hc.shared (.won hwon)))

theorem DeliveryMove.waitGroups_of (h : DeliveryMove c t d) (hg : g < c.shared.nextGroup)
    (htoken : d.shared.waitGroups token = some g) : c.shared.waitGroups token = some g :=
  (h.effect.waitGroups htoken).resolve_right fun hnew ↦ not_allocates hg hnew.1

theorem DeliveryMove.live_of (h : DeliveryMove c t d) (hg : g < c.shared.nextGroup)
    (hlive : d.shared.Live g) : c.shared.Live g := by
  obtain ⟨token, htoken⟩ := hlive
  exact ⟨token, h.waitGroups_of hg htoken⟩

/-! ## At most one message -/

/-- A callback that has won is the only one of its group, and publishes once. -/
structure Winners (c : DeliveryThreads ι) : Prop where
  known : Known c
  won_of_winner : ∀ {t w}, (c.locals t).duty.winner = some w → c.shared.Won w.group
  won_of_wake : ∀ {g}, g ∈ c.shared.wakes → c.shared.Won g
  unpublished : ∀ {t w}, (c.locals t).duty.winner = some w → w.group ∉ c.shared.wakes
  unique : ∀ {t u w v}, (c.locals t).duty.winner = some w → (c.locals u).duty.winner = some v →
    w.group = v.group → t = u
  nodup : c.shared.wakes.Nodup

/-- The wakes after a step. -/
theorem DeliveryEffect.wakes_of (h : DeliveryEffect s place place' s') :
    (∃ w, place.duty.winner = some w ∧ s'.wakes = s.wakes ++ [w.group]) ∨ s'.wakes = s.wakes := by
  obtain ⟨w, message, hw, -, hpublished⟩ | ⟨message, -, hpublished⟩ | ⟨hpublished, -⟩ :=
    h.published_eq
  · refine .inl ⟨w, hw, ?_⟩
    rw [wakes, hpublished, filterMap_append]
    rfl
  · refine .inr ?_
    rw [wakes, hpublished, filterMap_append]
    exact append_nil _
  · exact .inr (by rw [wakes, hpublished, wakes])

theorem DeliveryEffect.mem_wakes (h : DeliveryEffect s place place' s') (hg : g ∈ s.wakes) :
    g ∈ s'.wakes := by
  obtain ⟨w, -, hwakes⟩ | hwakes := h.wakes_of
  · exact hwakes ▸ mem_append_left _ hg
  · exact hwakes ▸ hg

/-- A winner after a step was there before, or has won by the step. -/
theorem DeliveryMove.winner_of (h : DeliveryMove c t d) {u : ι}
    (hw : (d.locals u).duty.winner = some w) :
    u = t ∧ ¬c.shared.Won w.group ∧ d.shared.Won w.group ∨
      u ≠ t ∧ (c.locals u).duty.winner = some w := by
  by_cases hu : u = t
  · subst u
    obtain ⟨hbefore, hafter, -⟩ := h.effect.winner_of hw
    exact .inl ⟨rfl, hbefore, hafter⟩
  · exact .inr ⟨hu, by rwa [h.others u hu] at hw⟩

theorem Winners.step (hc : Winners c) (h : DeliveryMove c t d) : Winners d := by
  have hwinner {u : ι} {w : Watcher} (hw : (d.locals u).duty.winner = some w) :
      d.shared.Won w.group := by
    obtain ⟨-, -, hwon⟩ | ⟨-, hold⟩ := h.winner_of hw
    · exact hwon
    · exact h.won_stays hc.known (hc.won_of_winner hold)
  refine ⟨hc.known.step h, hwinner, fun {g} hg ↦ ?_, fun {u w} hw hmem ↦ ?_,
    fun {u v w x} hw hx hgroup ↦ ?_, ?_⟩
  · obtain ⟨w, hw, hwakes⟩ | hwakes := h.effect.wakes_of
    · rw [hwakes, mem_append, mem_singleton] at hg
      obtain hg | rfl := hg
      · exact h.won_stays hc.known (hc.won_of_wake hg)
      · exact h.won_stays hc.known (hc.won_of_winner hw)
    · exact h.won_stays hc.known (hc.won_of_wake (hwakes ▸ hg))
  · -- a group that is published by this step had another winner
    obtain ⟨rfl, hbefore, -⟩ | ⟨hu, hold⟩ := h.winner_of hw
    · obtain ⟨v, hv, hwakes⟩ | hwakes := h.effect.wakes_of
      · rw [hwakes, mem_append, mem_singleton] at hmem
        obtain hmem | hmem := hmem
        · exact hbefore (hc.won_of_wake hmem)
        · exact hbefore (hmem ▸ hc.won_of_winner hv)
      · exact hbefore (hc.won_of_wake (hwakes ▸ hmem))
    · obtain ⟨v, hv, hwakes⟩ | hwakes := h.effect.wakes_of
      · rw [hwakes, mem_append, mem_singleton] at hmem
        obtain hmem | hmem := hmem
        · exact hc.unpublished hold hmem
        · exact hu (hc.unique hold hv hmem)
      · exact hc.unpublished hold (hwakes ▸ hmem)
  · obtain ⟨rfl, hbefore, -⟩ | ⟨-, hold⟩ := h.winner_of hw
    · obtain ⟨rfl, -⟩ | ⟨-, hold⟩ := h.winner_of hx
      · rfl
      · exact absurd (hgroup ▸ hc.won_of_winner hold) hbefore
    · obtain ⟨rfl, hbefore, -⟩ | ⟨-, hold'⟩ := h.winner_of hx
      · exact absurd (hgroup ▸ hc.won_of_winner hold) hbefore
      · exact hc.unique hold hold' hgroup
  · obtain ⟨w, hw, hwakes⟩ | hwakes := h.effect.wakes_of
    · rw [hwakes]
      refine nodup_append.mpr ⟨hc.nodup, nodup_singleton _, ?_⟩
      rintro g hg _ hmem rfl
      exact hc.unpublished hw (mem_singleton.mp hmem ▸ hg)
    · exact hwakes ▸ hc.nodup

/-! ## Publication order -/

/-- The messages that were received and those in the inbox are the published ones, in the order of
publication, which is also the order of their sequence numbers. -/
structure InOrder (s : EventDelivery) : Prop where
  messages : s.history.received ++ s.publication.sender.queue = s.history.published.map Prod.fst
  sequences : s.history.published.map (fun m ↦ m.1.sequence) =
    List.range' 1 s.history.published.length
  nextSequence : s.publication.nextSequence = s.history.published.length + 1

theorem InOrder.sent (hs : InOrder s) {event : ExternalEvent} {message : SequencedExternalEvent}
    {publication : EventPublication} (origin : Option GroupId)
    (hpublish : s.publication.publish event = .ok (message, publication)) :
    InOrder (s.sent message origin publication) := by
  obtain ⟨hmessage, hnext, hqueue⟩ := EventPublication.publish_eq_ok hpublish
  refine ⟨?_, ?_, ?_⟩
  · simp only [EventDelivery.sent, hqueue, map_append, ← hs.messages, append_assoc,
      map_cons, map_nil]
  · simp only [EventDelivery.sent, map_append, hs.sequences, length_append,
      map_cons, map_nil, hmessage, hs.nextSequence, length_singleton,
      List.range'_1_concat, Nat.add_comm]
  · simp only [EventDelivery.sent, hnext, hs.nextSequence, length_append,
      length_singleton]

theorem InOrder.step (hs : InOrder s) (h : DeliveryEffect s place place' s') : InOrder s' := by
  obtain ⟨hmessages, hsequences, hnext⟩ := hs
  cases h with
  | quiet hsame =>
    refine ⟨?_, ?_, ?_⟩ <;> simpa only [hsame.history, hsame.publication]
  | submit hpublish => exact InOrder.sent ⟨hmessages, hsequences, hnext⟩ none hpublish
  | publish w next hpublish => exact InOrder.sent ⟨hmessages, hsequences, hnext⟩ _ hpublish
  | receive hplace hqueue =>
    refine ⟨?_, hsequences, hnext⟩
    rw [hqueue] at hmessages
    rw [EventDelivery.taken, append_assoc]
    exact hmessages
  | _ => exact ⟨hmessages, hsequences, hnext⟩

/-! ## Tokens -/

/-- A watcher carries the token under which its group is registered. -/
def EventDelivery.Names (s : EventDelivery) (g : GroupId) (token : WakeToken) : Prop :=
  ∀ token', s.waitGroups token' = some g → token' = token

/-- Every watcher, and every message of one, names the token of its group. -/
structure Named (c : DeliveryThreads ι) : Prop where
  known : Known c
  live : ∀ {token g}, c.shared.waitGroups token = some g → c.shared.Names g token
  watched : ∀ {e id w}, c.shared.WatchedBy e id w → c.shared.Names w.group w.token
  pending : ∀ {t w}, w ∈ (c.locals t).duty.pending → c.shared.Names w.group w.token
  winner : ∀ {t w}, (c.locals t).duty.winner = some w → c.shared.Names w.group w.token
  entering : ∀ {t w}, (c.locals t).duty.entering = some w → c.shared.Names w.group w.token
  published : ∀ {m g}, (m, some g) ∈ c.shared.history.published →
    ∃ source token, m.event = .wake source token ∧ c.shared.Names g token

theorem EventDelivery.Names.step (h : DeliveryMove c t d) (hg : g < c.shared.nextGroup)
    (hnames : c.shared.Names g token) : d.shared.Names g token :=
  fun token' htoken ↦ hnames token' (h.waitGroups_of hg htoken)

theorem Named.live_step (hc : Named c) (h : DeliveryMove c t d)
    (htoken : d.shared.waitGroups token = some g) : d.shared.Names g token := by
  obtain hold | ⟨hnew, hunique⟩ := h.effect.waitGroups htoken
  · exact (hc.live hold).step h (hc.known.shared (.live hold))
  · intro token' htoken'
    by_contra hne
    refine hunique token' (fun hold ↦ ?_) hne htoken'
    exact not_allocates (hc.known.shared (.live hold)) hnew

/-- What a thread knows is kept by the steps of the others. -/
theorem Named.step (hc : Named c) (h : DeliveryMove c t d) : Named d := by
  have hpending {w : Watcher} (hw : w ∈ (c.locals t).duty.pending) :
      d.shared.Names w.group w.token := (hc.pending hw).step h (hc.known.locals (.pending hw))
  have hentering {w : Watcher} (hw : (c.locals t).duty.entering = some w) :
      d.shared.Names w.group w.token := (hc.entering hw).step h (hc.known.locals (.entering hw))
  have hwatched {e : EventId} {id : Nat} {w : Watcher} (hw : c.shared.WatchedBy e id w) :
      d.shared.Names w.group w.token := (hc.watched hw).step h (hc.known.shared (.watched hw))
  refine ⟨hc.known.step h, hc.live_step h, fun {e id w} hw ↦ ?_, fun {u w} hw ↦ ?_,
    fun {u w} hw ↦ ?_, fun {u w} hw ↦ ?_, fun {m g} hm ↦ ?_⟩
  · obtain hold | ⟨hplace, -⟩ := h.effect.watchedBy_of hw
    · exact hwatched hold
    · exact hentering (hplace ▸ rfl)
  · by_cases hu : u = t
    · subst u
      obtain hold | ⟨e, id, hw⟩ | ⟨e, hplace⟩ := h.effect.pending_of hw
      · exact hpending hold
      · exact hwatched hw
      · exact hentering (hplace ▸ rfl)
    · rw [h.others u hu] at hw
      exact (hc.pending hw).step h (hc.known.locals (.pending hw))
  · by_cases hu : u = t
    · subst u
      exact hpending (h.effect.winner_of hw).2.2
    · rw [h.others u hu] at hw
      exact (hc.winner hw).step h (hc.known.locals (.winner hw))
  · by_cases hu : u = t
    · subst u
      exact hc.live_step h (h.effect.entering_of hw)
    · rw [h.others u hu] at hw
      exact (hc.entering hw).step h (hc.known.locals (.entering hw))
  · obtain hold | ⟨w, hw, rfl, hevent⟩ := h.effect.published_of hm
    · obtain ⟨source, token, hevent, hnames⟩ := hc.published hold
      exact ⟨source, token, hevent, hnames.step h (hc.known.shared (.published hold))⟩
    · exact ⟨w.source, w.token, hevent, (hc.winner hw).step h (hc.known.locals (.winner hw))⟩

/-! ## The obligations -/

/-- The registration belongs to the group, in its list or in the hands of a thread. -/
def Owns (c : DeliveryThreads ι) (g : GroupId) (r : EventWatchRegistration) : Prop :=
  r ∈ (c.shared.groups g).registrations ∨ ∃ t, (g, r) ∈ (c.locals t).duty.held

/-- Neither a watcher nor a registration has this event and id. -/
def Unused (c : DeliveryThreads ι) (r : EventWatchRegistration) : Prop :=
  (∀ w, ¬c.shared.WatchedBy r.event r.id w) ∧ ∀ g, ¬Owns c g r

/-- The step does not lose a wake: a callback of a registered group finds room in the inbox, and a
watcher gets an id that is not in use. -/
def Deliverable (c : DeliveryThreads ι) (a : ι × DeliveryCall) : Prop :=
  match c.locals a.1 with
  | .publishing w _ =>
    c.shared.Live w.group → ∃ r, c.shared.publication.publish w.message = .ok r
  | .watching e _ => Unused c ⟨e, (c.shared.events e).nextWatcherId⟩
  | _ => True

/-- A callback of the group is going to run. -/
def Pending (c : DeliveryThreads ι) (g : GroupId) : Prop :=
  ∃ t, ∃ w ∈ (c.locals t).duty.pending, w.group = g

def Watched (s : EventDelivery) (e : EventId) (g : GroupId) : Prop :=
  ∃ id w, s.WatchedBy e id w ∧ w.group = g

structure Owed (c : DeliveryThreads ι) : Prop where
  named : Named c
  owned : ∀ {g r w}, Owns c g r → c.shared.WatchedBy r.event r.id w → w.group = g
  closing : ∀ {t g}, (c.locals t).duty.closing = some g → c.shared.Live g → c.shared.Won g
  won : ∀ {g}, c.shared.Won g → c.shared.Live g →
    g ∈ c.shared.wakes ∨ ∃ t w, (c.locals t).duty.winner = some w ∧ w.group = g
  registered : ∀ {e g}, g ∈ c.shared.history.registered e → c.shared.Live g →
    ¬c.shared.Won g → Watched c.shared e g ∨ Pending c g
  signalled : ∀ {g}, g ∈ c.shared.history.signalled → c.shared.Live g → ¬c.shared.Won g →
    (∃ t e, c.locals t = .signalling e ∧ Watched c.shared e g) ∨ Pending c g

theorem Deliverable.unused (hgood : Deliverable c (t, call)) {e : EventId}
    (hplace : c.locals t = .watching e w) : Unused c ⟨e, (c.shared.events e).nextWatcherId⟩ := by
  simpa only [Deliverable, hplace] using hgood

theorem Deliverable.publishes (hgood : Deliverable c (t, call)) {next : Callback}
    (hplace : c.locals t = .publishing w next) (hlive : c.shared.Live w.group) :
    ∃ r, c.shared.publication.publish w.message = .ok r := by
  simp only [Deliverable, hplace] at hgood
  exact hgood hlive

/-- A registration after a step was there before, or has just been made. -/
theorem DeliveryMove.owns_of (h : DeliveryMove c t d) {r : EventWatchRegistration}
    (howns : Owns d g r) :
    Owns c g r ∨ ∃ e w, c.locals t = .watching e w ∧ g = w.group ∧
      r = ⟨e, (c.shared.events e).nextWatcherId⟩ := by
  obtain hr | ⟨u, hr⟩ := howns
  · obtain hold | hheld := h.effect.registrations_of hr
    · exact .inl (.inl hold)
    · exact .inl (.inr ⟨t, hheld⟩)
  · by_cases hu : u = t
    · subst u
      obtain hold | hlist | hnew := h.effect.held_of hr
      · exact .inl (.inr ⟨t, hold⟩)
      · exact .inl (.inl hlist)
      · exact .inr hnew
    · exact .inl (.inr ⟨u, h.others u hu ▸ hr⟩)

theorem DeliveryMove.pending_stays (h : DeliveryMove c t d) (hg : Pending c g)
    (hwon : ¬d.shared.Won g) : Pending d g := by
  obtain ⟨u, w, hw, rfl⟩ := hg
  by_cases hu : u = t
  · subst u
    exact ⟨t, w, (h.effect.pending_stays hw).resolve_right hwon, rfl⟩
  · exact ⟨u, w, by rwa [h.others u hu], rfl⟩

section

variable {call : DeliveryCall} (hc : Owed c) (h : DeliveryMove c t d)

include hc h

theorem Owed.closing_step {u : ι} (hg : (d.locals u).duty.closing = some g)
    (hlive : d.shared.Live g) : d.shared.Won g := by
  have hold {u : ι} (hg : (c.locals u).duty.closing = some g) : d.shared.Won g := by
    have hknown := hc.named.known.locals (.closing hg)
    exact h.won_stays hc.named.known (hc.closing hg (h.live_of hknown hlive))
  by_cases hu : u = t
  · subst u
    obtain hbefore | hwon | ⟨token, htoken, hd⟩ := h.effect.closing_of hg
    · exact hold hbefore
    · exact h.won_stays hc.named.known hwon
    · -- the group was removed by this step from the only token it had
      obtain ⟨token', htoken'⟩ := hlive
      have hsame := hc.named.live htoken token'
        (h.waitGroups_of (hc.named.known.shared (.live htoken)) htoken')
      rw [hsame, hd] at htoken'
      exact absurd ((update_self ..).symm.trans htoken') nofun
  · exact hold (h.others u hu ▸ hg)

variable (hgood : Deliverable c (t, call))

include hgood

theorem Owed.owned_step {r : EventWatchRegistration} (howns : Owns d g r)
    (hw : d.shared.WatchedBy r.event r.id w) : w.group = g := by
  obtain hold | ⟨hplace, hid⟩ := h.effect.watchedBy_of hw
  · obtain howns | ⟨e, v, hplace, rfl, rfl⟩ := h.owns_of howns
    · exact hc.owned howns hold
    · exact absurd hold ((hgood.unused hplace).1 w)
  · have hr : r = ⟨r.event, (c.shared.events r.event).nextWatcherId⟩ := by rw [← hid]
    obtain howns | ⟨e, v, hplace', rfl, -⟩ := h.owns_of howns
    · exact absurd howns (hr ▸ (hgood.unused hplace).2 g)
    · cases hplace.symm.trans hplace'
      rfl

/-- The callback of a registered group that has won publishes its wake. -/
theorem Owed.publishes_step (hw : (c.locals t).duty.winner = some w)
    (hlive : d.shared.Live w.group) : w.group ∈ d.shared.wakes := by
  have hlive := h.live_of (hc.named.known.locals (.winner hw)) hlive
  obtain ⟨v, message, hv, -, hpublished⟩ | ⟨message, hnone, -⟩ | ⟨-, hfails⟩ :=
    h.effect.published_eq
  · cases hw.symm.trans hv
    rw [wakes, hpublished, filterMap_append]
    exact mem_append_right _ mem_cons_self
  · cases hw.symm.trans hnone
  · obtain ⟨next, error, hplace, herror⟩ := hfails w hw
    obtain ⟨r, hok⟩ := hgood.publishes hplace hlive
    cases herror.symm.trans hok

theorem Owed.won_step (hg : d.shared.Won g) (hlive : d.shared.Live g) :
    g ∈ d.shared.wakes ∨ ∃ t w, (d.locals t).duty.winner = some w ∧ w.group = g := by
  have hold (hg : c.shared.Won g) :
      g ∈ d.shared.wakes ∨ ∃ t w, (d.locals t).duty.winner = some w ∧ w.group = g := by
    obtain hmem | ⟨u, w, hw, rfl⟩ := hc.won hg (h.live_of (hc.named.known.shared (.won hg)) hlive)
    · exact .inl (h.effect.mem_wakes hmem)
    · by_cases hu : u = t
      · subst u
        exact .inl (hc.publishes_step h hgood hw hlive)
      · exact .inr ⟨u, w, by rwa [h.others u hu], rfl⟩
  obtain hg | ⟨w, hw, hg⟩ | hclosing := h.effect.won_of hg
  · exact hold hg
  · exact .inr ⟨t, w, hw, hg⟩
  · exact hold (hc.closing hclosing (h.live_of (hc.named.known.locals (.closing hclosing)) hlive))

theorem Owed.watched_step {e : EventId} (hg : Watched c.shared e g) (hlive : d.shared.Live g)
    (hwon : ¬d.shared.Won g) : Watched d.shared e g ∨ Pending d g := by
  obtain ⟨id, w, hw, rfl⟩ := hg
  obtain hstays | hpending | ⟨g, hclosing, hheld⟩ | ⟨v, hplace, rfl⟩ := h.effect.watchedBy_stays hw
  · exact .inl ⟨id, w, hstays, rfl⟩
  · exact .inr ⟨t, w, hpending, rfl⟩
  · -- only a registration of the watcher's own group removes it
    have hgroup : w.group = g := hc.owned (.inr ⟨t, hheld⟩) hw
    have hknown := hc.named.known.locals (.closing hclosing)
    have hbefore := hc.closing hclosing (h.live_of hknown (hgroup ▸ hlive))
    exact absurd (h.won_stays hc.named.known hbefore) (hgroup ▸ hwon)
  · exact absurd hw ((hgood.unused hplace).1 w)

theorem Owed.registered_step {e : EventId} (hg : g ∈ d.shared.history.registered e)
    (hlive : d.shared.Live g) (hwon : ¬d.shared.Won g) : Watched d.shared e g ∨ Pending d g := by
  obtain hold | ⟨w, hplace, rfl, hpending | hw⟩ := h.effect.registered_of hg
  · have hbefore := hc.registered hold
      (h.live_of (hc.named.known.shared (.registered hold)) hlive)
      fun hold ↦ hwon (h.won_stays hc.named.known hold)
    obtain hw | hpending := hbefore
    · exact hc.watched_step h hgood hw hlive hwon
    · exact .inr (h.pending_stays hpending hwon)
  · exact .inr ⟨t, w, hpending, rfl⟩
  · exact .inl ⟨_, w, hw, rfl⟩

theorem Owed.signalled_step (hg : g ∈ d.shared.history.signalled) (hlive : d.shared.Live g)
    (hwon : ¬d.shared.Won g) :
    (∃ t e, d.locals t = .signalling e ∧ Watched d.shared e g) ∨ Pending d g := by
  have hbefore : ¬c.shared.Won g := fun hold ↦ hwon (h.won_stays hc.named.known hold)
  have htaken {e : EventId} (hplace : c.locals t = .signalling e) (hw : Watched c.shared e g) :
      Pending d g := by
    obtain ⟨id, w, hw, rfl⟩ := hw
    exact ⟨t, w, (hplace ▸ h.effect).pending_of_signalling hw, rfl⟩
  obtain hold | ⟨e, hreg, hplace | hplace⟩ | ⟨w, hpending, rfl⟩ := h.effect.signalled_of hg
  · have hlive' := h.live_of (hc.named.known.shared (.signalled hold)) hlive
    obtain ⟨u, e, hu, hw⟩ | hpending := hc.signalled hold hlive' hbefore
    · by_cases hut : u = t
      · subst u
        exact .inr (htaken hu hw)
      · obtain hw | hpending := hc.watched_step h hgood hw hlive hwon
        · exact .inl ⟨u, e, (h.others u hut).trans hu, hw⟩
        · exact .inr hpending
    · exact .inr (h.pending_stays hpending hwon)
  · have hlive' := h.live_of (hc.named.known.shared (.registered hreg)) hlive
    obtain hw | hpending := hc.registered hreg hlive' hbefore
    · obtain hw | hpending := hc.watched_step h hgood hw hlive hwon
      · exact .inl ⟨t, e, hplace, hw⟩
      · exact .inr hpending
    · exact .inr (h.pending_stays hpending hwon)
  · have hlive' := h.live_of (hc.named.known.shared (.registered hreg)) hlive
    obtain hw | hpending := hc.registered hreg hlive' hbefore
    · exact .inr (htaken hplace hw)
    · exact .inr (h.pending_stays hpending hwon)
  · exact .inr ⟨t, w, hpending, rfl⟩

theorem Owed.step : Owed d :=
  ⟨hc.named.step h, hc.owned_step h hgood, hc.closing_step h, hc.won_step h hgood,
    hc.registered_step h hgood, hc.signalled_step h hgood⟩

end

/-! ## Runs -/

section

variable (capacity : Nat) (source : EventId → Option ExternalEventSource)

theorem initial_watchedBy {e : EventId} {id : Nat} {w : Watcher} :
    ¬(EventDelivery.bounded capacity source).WatchedBy e id w := by
  intro h
  cases (ExtTreeMap.getElem?_empty (α := Nat)).symm.trans h

theorem known_initial : Known (initialDelivery capacity source : DeliveryThreads ι) := by
  refine ⟨fun {g} hg ↦ ?_, fun {t g} hg ↦ ?_⟩
  · cases hg with
    | watched h => exact absurd h (initial_watchedBy capacity source)
    | live h | won h | owner h | registered h | signalled h | published h => cases h
  · cases hg with
    | pending h | winner h | held h | closing h | entering h => cases h

theorem named_initial : Named (initialDelivery capacity source : DeliveryThreads ι) :=
  ⟨known_initial capacity source, nofun, fun h ↦ absurd h (initial_watchedBy capacity source),
    nofun, nofun, nofun, nofun⟩

end

/-! ## Progress -/

/-- The steps that the thread takes at most before it has run all its callbacks. -/
def DeliveryPlace.rank : DeliveryPlace → Nat
  | .notifying _ next => 3 * next.duty.pending.length + 3
  | .publishing _ next => 3 * next.duty.pending.length + 2
  | .overflowing next => 3 * next.duty.pending.length + 1
  | _ => 0

theorem rank_resume_le (next : Callback) : next.resume.rank ≤ 3 * next.duty.pending.length := by
  cases next with
  | signal rest =>
    cases rest with
    | nil => exact Nat.zero_le _
    | cons w rest => exact Nat.le_refl _
  | watch g r => exact Nat.zero_le _

theorem DeliveryEffect.rank_lt (h : DeliveryEffect s place place' s')
    (hw : w ∈ place.duty.pending) : place'.rank < place.rank := by
  cases h with
  | quiet _ hplace | receive hplace => rcases hplace with rfl | rfl <;> cases hw
  | lose w next | publish w next | overflow next =>
    exact Nat.lt_of_le_of_lt (rank_resume_le next) (Nat.lt_add_of_pos_right (Nat.succ_pos _))
  | win w next | fail w next => exact Nat.lt_succ_self _
  | _ => cases hw

/-- A call that has begun can always go on. -/
theorem deliveryStep_resume_ne_none (t : ι) (s : EventDelivery) (hplace : place ≠ .idle) :
    deliveryStep t .resume place s ≠ none := by
  cases place with
  | idle => exact absurd rfl hplace
  | notifying w next | publishing w next | adding g r =>
    simp only [deliveryStep, resumeCall]
    split <;> exact Option.some_ne_none _
  | dropping g rs => cases rs <;> exact Option.some_ne_none _
  | signalling | overflowing | watching | cancelling | clearing | receiving =>
    exact Option.some_ne_none _

section

variable [DecidableEq ι] {capacity : Nat} {source : EventId → Option ExternalEventSource}
  {ρ : (deliveryStep (ι := ι)).machine.Behaviour (initialDelivery capacity source)}

theorem move_behaviour (ρ : (deliveryStep (ι := ι)).machine.Behaviour
    (initialDelivery capacity source)) (n : ℕ) :
    DeliveryMove (ρ.state n) (ρ.input n).1 (ρ.state (n + 1)) :=
  deliveryMove_of_step (ρ.next n)

theorem owed_behaviour (hgood : ∀ i, Deliverable (ρ.state i) (ρ.input i)) (n : ℕ) :
    Owed (ρ.state n) := by
  induction n with
  | zero =>
    rw [ρ.start]
    exact ⟨named_initial capacity source, fun _ h ↦ absurd h (initial_watchedBy capacity source),
      nofun, nofun, nofun, nofun⟩
  | succ n ih => exact ih.step (move_behaviour ρ n) (hgood n)

/-- A thread that is in a call leaves its place by a step of its own. -/
theorem exists_move (hfair : ρ.WeaklyFair (· = .resume)) {n : ℕ}
    (hplace : (ρ.state n).locals t ≠ .idle) :
    ∃ i, n ≤ i ∧ (ρ.state i).locals t = (ρ.state n).locals t ∧ (ρ.input i).1 = t :=
  Machine.Behaviour.leaves hfair (P := (· = (ρ.state n).locals t)) rfl
    fun _ s hl ↦ ⟨.resume, rfl, deliveryStep_resume_ne_none t s (hl ▸ hplace)⟩

variable (hfair : ρ.WeaklyFair (· = .resume)) (hgood : ∀ i, Deliverable (ρ.state i) (ρ.input i))
  {n : ℕ} (hlive : ∀ i, n ≤ i → (ρ.state i).shared.Live g)

include hfair

/-- A callback that is to run runs, and then its group has won. -/
theorem exists_won_of_pending (hpending : w ∈ ((ρ.state n).locals t).duty.pending) :
    ∃ m, n ≤ m ∧ (ρ.state m).shared.Won w.group := by
  induction hrank : ((ρ.state n).locals t).rank using Nat.strong_induction_on generalizing n with
  | h k ih =>
    have hplace : (ρ.state n).locals t ≠ .idle := fun hidle ↦ by
      rw [hidle] at hpending
      cases hpending
    obtain ⟨i, hi, hstays, rfl⟩ := exists_move hfair hplace
    rw [← hstays] at hpending hrank
    have hmove := move_behaviour ρ i
    obtain hnext | hwon := hmove.effect.pending_stays hpending
    · obtain ⟨m, hm, hwon⟩ := ih _ (hrank ▸ hmove.effect.rank_lt hpending) hnext rfl
      exact ⟨m, by omega, hwon⟩
    · exact ⟨i + 1, by omega, hwon⟩

include hgood hlive

/-- A group with a callback to run or with a watcher that a signal is going to take wins. -/
theorem exists_won_of_signalled (hg : g ∈ (ρ.state n).shared.history.signalled) :
    ∃ m, n ≤ m ∧ (ρ.state m).shared.Won g := by
  by_contra hnever
  have hopen (i : ℕ) (hi : n ≤ i) : ¬(ρ.state i).shared.Won g := fun hwon ↦ hnever ⟨i, hi, hwon⟩
  have hpending : ∃ i, n ≤ i ∧ Pending (ρ.state i) g := by
    obtain ⟨t, e, hplace, hw⟩ | hpending :=
      (owed_behaviour hgood n).signalled hg (hlive n (Nat.le_refl n)) (hopen n (Nat.le_refl n))
    · have hstays (i : ℕ) (hi : n ≤ i) :
          Watched (ρ.state i).shared e g ∨ Pending (ρ.state i) g := by
        induction hi with
        | refl => exact .inl hw
        | @step i hi ih =>
          have hi' : n ≤ i + 1 := Nat.le_succ_of_le hi
          obtain hw | hpending := ih
          · exact (owed_behaviour hgood i).watched_step (move_behaviour ρ i) (hgood i) hw
              (hlive _ hi') (hopen _ hi')
          · exact .inr ((move_behaviour ρ i).pending_stays hpending (hopen _ hi'))
      have hbusy : (ρ.state n).locals t ≠ .idle := by
        rw [hplace]
        exact nofun
      obtain ⟨i, hi, hsame, rfl⟩ := exists_move hfair hbusy
      obtain ⟨id, w, hw', rfl⟩ | hpending := hstays i hi
      · have heffect := (move_behaviour ρ i).effect
        rw [hsame, hplace] at heffect
        exact ⟨i + 1, Nat.le_succ_of_le hi, _, w, heffect.pending_of_signalling hw', rfl⟩
      · exact ⟨i, hi, hpending⟩
    · exact ⟨n, Nat.le_refl n, hpending⟩
  obtain ⟨i, hi, t, w, hw, rfl⟩ := hpending
  obtain ⟨m, hm, hwon⟩ := exists_won_of_pending hfair hw
  exact hopen m (hi.trans hm) hwon

/-- **Progress.** The wake of a registered group, one of whose events is signalled, is
published. -/
theorem exists_wake (hg : g ∈ (ρ.state n).shared.history.signalled) :
    ∃ m, n ≤ m ∧ g ∈ (ρ.state m).shared.wakes := by
  obtain ⟨m, hm, hwon⟩ := exists_won_of_signalled hfair hgood hlive hg
  obtain hwake | ⟨t, w, hw, rfl⟩ := (owed_behaviour hgood m).won hwon (hlive m hm)
  · exact ⟨m, hm, hwake⟩
  · have hplace : (ρ.state m).locals t ≠ .idle := fun hidle ↦ by
      rw [hidle] at hw
      cases hw
    obtain ⟨i, hi, hstays, rfl⟩ := exists_move hfair hplace
    refine ⟨i + 1, by omega, ?_⟩
    exact (owed_behaviour hgood i).publishes_step (move_behaviour ρ i) (hgood i) (hstays ▸ hw)
      (hlive _ (by omega))

end

/-! ## The theorem -/

/-- With one message for a group, its messages are this one. -/
theorem filter_published_eq {published : List (SequencedExternalEvent × Option GroupId)}
    (hnodup : (published.filterMap Prod.snd).Nodup) (hm : (m, some g) ∈ published) :
    published.filter (fun p ↦ p.2 = some g) = [(m, some g)] := by
  induction published with
  | nil => cases hm
  | cons p published ih =>
    obtain ⟨m', _ | g'⟩ := p
    · rw [filterMap_cons_none rfl] at hnodup
      rw [filter_cons_of_neg (by simp), ih hnodup]
      exact (mem_cons.mp hm).resolve_left nofun
    · rw [filterMap_cons_some (f := Prod.snd) rfl, nodup_cons] at hnodup
      by_cases hg : g' = g
      · subst g'
        have hrest (m'' : SequencedExternalEvent) : (m'', some g) ∉ published := fun hmem ↦
          hnodup.1 (mem_filterMap.mpr ⟨_, hmem, rfl⟩)
        obtain hm | hm := mem_cons.mp hm
        · rw [filter_cons_of_pos (by simp), filter_eq_nil_iff.mpr, hm]
          rintro ⟨m'', origin⟩ hmem horigin
          exact hrest m'' (of_decide_eq_true horigin ▸ hmem)
        · exact absurd hm (hrest m)
      · rw [filter_cons_of_neg (by simpa using hg), ih hnodup.2]
        exact (mem_cons.mp hm).resolve_left fun heq ↦ hg (by cases heq; rfl)

theorem mem_published_of_le [DecidableEq ι] {init : DeliveryThreads ι}
    (ρ : (deliveryStep (ι := ι)).machine.Behaviour init) {n i : ℕ} (hi : n ≤ i)
    {p : SequencedExternalEvent × Option GroupId} (hp : p ∈ (ρ.state n).shared.history.published) :
    p ∈ (ρ.state i).shared.history.published := by
  induction hi with
  | refl => exact hp
  | @step i hi ih =>
    obtain ⟨w, m, -, -, heq⟩ | ⟨m, -, heq⟩ | ⟨heq, -⟩ :=
      (deliveryMove_of_step (ρ.next i)).effect.published_eq
    · exact heq ▸ mem_append_left _ ih
    · exact heq ▸ mem_append_left _ ih
    · exact heq ▸ ih

/-- What every run guarantees, whatever is lost: at most one wake for a group, under the token of
the group, and messages in the order of publication. -/
structure Delivered (s : EventDelivery) : Prop where
  once : s.wakes.Nodup
  token : ∀ {m g token}, (m, some g) ∈ s.history.published → s.waitGroups token = some g →
    ∃ source, m.event = .wake source token
  order : InOrder s

variable {source : EventId → Option ExternalEventSource}

theorem delivered_of_run [DecidableEq ι]
    (hrun : deliveryStep.machine.Run (initialDelivery capacity source) es d) :
    Delivered d.shared := by
  have hinv : Winners d ∧ Named d ∧ InOrder d.shared :=
    hrun.invariant (I := fun c ↦ Winners c ∧ Named c ∧ InOrder c.shared)
      (fun c a b d ⟨hw, hn, ho⟩ h ↦
        have hmove := deliveryMove_of_step h
        ⟨hw.step hmove, hn.step hmove, ho.step hmove.effect⟩)
      ⟨⟨known_initial capacity source, nofun, nofun, nofun, nofun, nodup_nil⟩,
        named_initial capacity source, rfl, rfl, rfl⟩
  obtain ⟨hwinners, hnamed, horder⟩ := hinv
  refine ⟨hwinners.nodup, fun {m g token} hm htoken ↦ ?_, horder⟩
  obtain ⟨source, token', hevent, hnames⟩ := hnamed.published hm
  exact ⟨source, hnames token htoken ▸ hevent⟩

/-- A single thread that is done with all its calls may read the empty inbox for ever. -/
theorem exists_idle_behaviour {es : List ((Unit × DeliveryCall) × DeliveryAnswer)}
    {d : DeliveryThreads Unit}
    (hrun : deliveryStep.machine.Run (initialDelivery capacity source) es d)
    (hidle : d.locals () = .idle) (hempty : d.shared.publication.sender.queue = []) :
    ∃ ρ : deliveryStep.machine.Behaviour (initialDelivery capacity source),
      ρ.WeaklyFair (· = .resume) ∧ (∀ i, es.length ≤ i → ρ.state i = d) ∧
      ∀ G, deliveryStep.machine.Along G (initialDelivery capacity source) (es.map Prod.fst) →
        G d ((), .recvSequencedTimeout) → ∀ i, G (ρ.state i) (ρ.input i) := by
  have hloop : deliveryStep.machine d ((), .recvSequencedTimeout) =
      some (.received none, d) := by
    refine ThreadStep.machine_eq_some_iff.mpr ⟨.idle, d.shared, ?_, ?_⟩
    · rw [hidle]
      simp only [deliveryStep, startCall, EventDelivery.receive, hempty]
    · rw [← hidle, update_eq_self]
  obtain ⟨ρ, hlate, -, hG⟩ := Machine.Behaviour.exists_of_run hrun hloop
  refine ⟨ρ, fun t n henabled ↦ ?_, hlate, hG⟩
  obtain ⟨a, rfl, hstep⟩ := henabled (max n es.length) (Nat.le_max_left _ _)
  rw [hlate _ (Nat.le_max_right _ _), hidle] at hstep
  exact absurd rfl hstep

/-- One watcher on one event. -/
def watchEvent : List (Unit × DeliveryCall) :=
  [((), .watchReadableEvent 0 false ⟨7, 3⟩ .device), ((), .resume), ((), .resume)]

/-- The event is signalled, and a callback takes `steps` steps. -/
def signalEvent (steps : Nat) : List (Unit × DeliveryCall) :=
  ((), .signal 0) :: List.replicate steps ((), .resume)

/-- A check for a single thread that implies `Deliverable` while there is one group. -/
def SingleDeliverable (c : DeliveryThreads Unit) (_ : Unit × DeliveryCall) : Prop :=
  match c.locals () with
  | .publishing w _ => (c.shared.publication.publish w.message).isOk = true
  | .watching e _ =>
    c.shared.nextGroup = 1 ∧ (c.shared.groups 0).registrations = [] ∧
      (c.shared.events e).watchers.isEmpty = true
  | _ => True

instance (c : DeliveryThreads Unit) (a : Unit × DeliveryCall) :
    Decidable (SingleDeliverable c a) := by
  unfold SingleDeliverable
  split <;> infer_instance

theorem SingleDeliverable.deliverable {c : DeliveryThreads Unit} {a : Unit × DeliveryCall}
    (hc : Known c) (h : SingleDeliverable c a) : Deliverable c a := by
  rw [SingleDeliverable] at h
  rw [Deliverable]
  split at h
  · rename_i hplace
    rw [hplace]
    intro _
    revert h
    cases c.shared.publication.publish _ with
    | ok r => exact fun _ ↦ ⟨r, rfl⟩
    | error => exact nofun
  · rename_i e w hplace
    obtain ⟨hgroup, hregistrations, hempty⟩ := h
    rw [hplace]
    refine ⟨fun w' hw ↦ ?_, fun g howns ↦ ?_⟩
    · rw [WatchedBy, ExtTreeMap.isEmpty_iff.mp hempty, ExtTreeMap.getElem?_empty] at hw
      cases hw
    · obtain hr | ⟨_, hr⟩ := howns
      · have hg := hc.shared (.owner hr)
        rw [hgroup, Nat.lt_one_iff] at hg
        rw [hg, hregistrations] at hr
        cases hr
      · rw [hplace] at hr
        cases hr
  · rename_i hpublishing hwatching
    split
    · exact absurd ‹_› (hpublishing _ _)
    · exact absurd ‹_› (hwatching _ _)
    · trivial

end Nixe.Runtime
