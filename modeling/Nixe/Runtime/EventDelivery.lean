import Nixe.Runtime.ExternalEvent

/-!
# Duties of threads for wait groups

What matters of the place of a thread is what it has still to do for the wait groups, its duty:
callbacks to run, a wake to publish, registrations to hand over or to drop, a group to close. Each
of the lemmas here takes one part of the state, or of the duty, and says where it comes from or what
becomes of it in a step. The invariants of `WakeDelivery` are built from these alone.
-/

namespace Nixe.Runtime

open Std Scheduler Function ExtTreeMap List Callback

/-! ## Duties -/

/-- What a thread has still to do for the wait groups. -/
structure Duty where
  /-- The watchers whose callbacks have still to swap `won`. -/
  pending : List Watcher := []
  /-- The watcher whose callback has won and has not tried to publish yet. -/
  winner : Option Watcher := none
  /-- The registrations that the thread owns, with their groups. -/
  held : List (GroupId × EventWatchRegistration) := []
  /-- The group that is cancelled, or whose registrations are dropped. -/
  closing : Option GroupId := none
  /-- The watcher that is going to be registered. -/
  entering : Option Watcher := none

def Callback.duty : Callback → Duty
  | .signal rest => { pending := rest }
  | .watch g r => { held := [(g, r)] }

def DeliveryPlace.duty : DeliveryPlace → Duty
  | .idle | .receiving | .signalling _ => {}
  | .notifying w next => { next.duty with pending := w :: next.duty.pending }
  | .publishing w next => { next.duty with winner := some w }
  | .overflowing next => next.duty
  | .watching _ w => { entering := some w }
  | .adding g r => { held := [(g, r)] }
  | .cancelling g | .clearing g => { closing := some g }
  | .dropping g rs => { held := rs.map fun r ↦ (g, r), closing := some g }

@[simp] theorem duty_runWatchers (ws : List Watcher) :
    (runWatchers ws).duty = { pending := ws } := by
  cases ws <;> rfl

@[simp] theorem duty_resume (next : Callback) : next.resume.duty = next.duty := by
  cases next with
  | signal rest => exact duty_runWatchers rest
  | watch g r => rfl

@[simp] theorem Callback.winner_duty (next : Callback) : next.duty.winner = none := by
  cases next <;> rfl

@[simp] theorem Callback.closing_duty (next : Callback) : next.duty.closing = none := by
  cases next <;> rfl

@[simp] theorem Callback.entering_duty (next : Callback) : next.duty.entering = none := by
  cases next <;> rfl

namespace EventDelivery

/-- The group is registered under a token and has not been cancelled. -/
def Live (s : EventDelivery) (g : GroupId) : Prop := ∃ token, s.waitGroups token = some g

def Won (s : EventDelivery) (g : GroupId) : Prop := (s.groups g).won = true

/-- The watcher is registered at the event under the id. -/
def WatchedBy (s : EventDelivery) (e : EventId) (id : Nat) (w : Watcher) : Prop :=
  (s.events e).watchers[id]? = some w

/-- The groups whose wakes have been published, in the order of publication. -/
def wakes (s : EventDelivery) : List GroupId := s.history.published.filterMap Prod.snd

variable {s : EventDelivery} {group : ExternalWaitGroup}

theorem won_setGroup {g g' : GroupId} :
    (s.setGroup g' group).Won g ↔ if g = g' then group.won = true else s.Won g := by
  change (Function.update s.groups g' group g).won = true ↔ _
  rw [update_apply]
  split <;> exact Iff.rfl

theorem mem_registrations_setGroup {g g' : GroupId} {r : EventWatchRegistration} :
    r ∈ ((s.setGroup g' group).groups g).registrations ↔
      if g = g' then r ∈ group.registrations else r ∈ (s.groups g).registrations := by
  change r ∈ (Function.update s.groups g' group g).registrations ↔ _
  rw [update_apply]
  split <;> exact Iff.rfl

theorem watchedBy_setEvent {e e' : EventId} {event : EventState} {id : Nat} {w : Watcher} :
    (s.setEvent e' event).WatchedBy e id w ↔
      if e = e' then event.watchers[id]? = some w else s.WatchedBy e id w := by
  change (Function.update s.events e' event e).watchers[id]? = some w ↔ _
  rw [update_apply]
  split <;> exact Iff.rfl

/-- The step from `s` to `s'` allocates the group. -/
def Allocates (s s' : EventDelivery) (g : GroupId) : Prop :=
  g = s.nextGroup ∧ s'.nextGroup = s.nextGroup + 1

end EventDelivery

theorem EventPublication.publish_eq_ok {p p' : EventPublication} {event : ExternalEvent}
    {message : SequencedExternalEvent} (h : p.publish event = .ok (message, p')) :
    message = ⟨p.nextSequence, event⟩ ∧ p'.nextSequence = p.nextSequence + 1 ∧
      p'.sender.queue = p.sender.queue ++ [message] := by
  rw [EventPublication.publish] at h
  split at h
  · cases h
  · rename_i next hnext
    split at h
    · cases h
    · rename_i sender hsend
      cases h
      rw [SyncChannel.trySend] at hsend
      split at hsend
      · cases hsend
        exact ⟨rfl, (checkedAdd_eq_some_iff.mp hnext).2.symm, rfl⟩
      · cases hsend

/-! ## What the steps do to one group -/

namespace DeliveryEffect

open EventDelivery

variable {s s' : EventDelivery} {place place' : DeliveryPlace} {g : GroupId} {w : Watcher}
  {e : EventId} {id : Nat} {r : EventWatchRegistration}

/-- The lock section of `signal` takes every watcher of the event. -/
theorem pending_of_signalling (h : DeliveryEffect s (.signalling e) place' s')
    (hw : s.WatchedBy e id w) : w ∈ place'.duty.pending := by
  cases h with
  | quiet _ hplace | receive hplace => rcases hplace with h | h <;> cases h
  | take =>
    rw [takeWatchers, duty_runWatchers]
    exact mem_map.mpr ⟨(id, w), mem_toList_iff_getElem?_eq_some.mpr hw, rfl⟩

variable (h : DeliveryEffect s place place' s')

include h

theorem nextGroup_le : s.nextGroup ≤ s'.nextGroup := by
  cases h with
  | quiet hsame => exact hsame.nextGroup.ge
  | create => exact Nat.le_succ _
  | _ => exact Nat.le_refl _

theorem waitGroups {token : WakeToken} (hg : s'.waitGroups token = some g) :
    s.waitGroups token = some g ∨
      s.Allocates s' g ∧ ∀ token', s.waitGroups token' ≠ some g → token' ≠ token →
        s'.waitGroups token' ≠ some g := by
  cases h with
  | quiet hsame => exact .inl (hsame.waitGroups ▸ hg)
  | create e w htoken hgroup =>
    change Function.update s.waitGroups w.token (some s.nextGroup) token = some g at hg
    rw [update_apply] at hg
    split at hg
    · subst token
      cases hg
      refine .inr ⟨⟨rfl, rfl⟩, fun token' hother hne ↦ ?_⟩
      exact ne_of_eq_of_ne (update_of_ne hne _ _) hother
    · exact .inl hg
  | remove token' g' htoken =>
    change Function.update s.waitGroups token' none token = some g at hg
    rw [update_apply] at hg
    split at hg
    · cases hg
    · exact .inl hg
  | _ => exact .inl hg

theorem won_of (hg : s'.Won g) :
    s.Won g ∨ (∃ w, place'.duty.winner = some w ∧ w.group = g) ∨ place.duty.closing = some g := by
  cases h with
  | quiet hsame => exact .inl (by rwa [Won, hsame.groups] at hg)
  | win w next hwon =>
    rw [setWon, won_setGroup] at hg
    split at hg
    · exact .inr (.inl ⟨w, rfl, Eq.symm ‹_›⟩)
    · exact .inl hg
  | cancel g' =>
    rw [setWon, won_setGroup] at hg
    split at hg
    · exact .inr (.inr (congrArg some (Eq.symm ‹_›)))
    · exact .inl hg
  | create e w htoken hgroup =>
    change (s.setGroup s.nextGroup .new).Won g at hg
    rw [won_setGroup] at hg
    split at hg
    · cases hg
    · exact .inl hg
  | add g' r hwon | clear g' =>
    rw [won_setGroup] at hg
    split at hg
    · subst g
      exact .inl hg
    · exact .inl hg
  | _ => exact .inl hg

theorem won_stays (hg : s.Won g) : s'.Won g ∨ s.Allocates s' g := by
  cases h with
  | quiet hsame => exact .inl (by rwa [Won, hsame.groups])
  | create e w htoken hgroup =>
    by_cases hnew : g = s.nextGroup
    · exact .inr ⟨hnew, rfl⟩
    · exact .inl (won_setGroup.mpr (by rwa [if_neg hnew]))
  | win g' _ hwon | cancel g' | add g' r hwon | clear g' =>
    refine .inl (won_setGroup.mpr ?_)
    split
    · first | rfl | (subst g; exact hg)
    · exact hg
  | _ => exact .inl hg

theorem registrations_of (hr : r ∈ (s'.groups g).registrations) :
    r ∈ (s.groups g).registrations ∨ (g, r) ∈ place.duty.held := by
  cases h with
  | quiet hsame => exact .inl (by rwa [hsame.groups] at hr)
  | create e w htoken hgroup =>
    change r ∈ ((s.setGroup s.nextGroup .new).groups g).registrations at hr
    rw [mem_registrations_setGroup] at hr
    split at hr
    · cases hr
    · exact .inl hr
  | win w _ hwon | cancel g' =>
    rw [setWon, mem_registrations_setGroup] at hr
    split at hr
    · subst g
      exact .inl hr
    · exact .inl hr
  | add g' r' hwon =>
    rw [mem_registrations_setGroup] at hr
    split at hr
    · subst g
      obtain hr | hr := mem_append.mp hr
      · exact .inl hr
      · cases mem_singleton.mp hr
        exact .inr (mem_singleton_self _)
    · exact .inl hr
  | clear g' =>
    rw [mem_registrations_setGroup] at hr
    split at hr
    · cases hr
    · exact .inl hr
  | _ => exact .inl hr

theorem held_of (hr : (g, r) ∈ place'.duty.held) :
    (g, r) ∈ place.duty.held ∨ r ∈ (s.groups g).registrations ∨
      ∃ e w, place = .watching e w ∧ g = w.group ∧ r = ⟨e, (s.events e).nextWatcherId⟩ := by
  cases h with
  | quiet hsame hplace hplace' =>
    rcases hplace' with rfl | rfl <;> cases hr
  | take e => 
    rw [takeWatchers, duty_runWatchers] at hr
    cases hr
  | lose w next | publish w next | overflow next =>
    rw [duty_resume] at hr
    exact .inl hr
  | win | fail | reject => exact .inl hr
  | ready e w | register e w =>
    obtain ⟨rfl, rfl⟩ := Prod.mk.inj (mem_singleton.mp hr)
    exact .inr (.inr ⟨e, w, rfl, rfl, rfl⟩)
  | clear g' =>
    obtain ⟨r', hr', ⟨⟩⟩ := mem_map.mp hr
    exact .inr (.inl hr')
  | drop g' r' rest => exact .inl (mem_cons_of_mem _ hr)
  | _ => cases hr

theorem watchedBy_of (hw : s'.WatchedBy e id w) :
    s.WatchedBy e id w ∨ place = .watching e w ∧ id = (s.events e).nextWatcherId := by
  cases h with
  | quiet hsame => exact .inl (by rwa [WatchedBy, hsame.watchers] at hw)
  | signal e' | ready e' w' =>
    replace hw := watchedBy_setEvent.mp hw
    split at hw
    · subst e
      exact .inl hw
    · exact .inl hw
  | take e' =>
    replace hw := watchedBy_setEvent.mp hw
    split at hw
    · rw [ExtTreeMap.getElem?_empty] at hw
      cases hw
    · exact .inl hw
  | register e' w' =>
    replace hw := watchedBy_setEvent.mp hw
    split at hw
    · subst e
      rw [EventState.insertWatcher, ExtTreeMap.getElem?_insert] at hw
      split at hw
      · cases hw
        exact .inr ⟨rfl, (Std.compare_eq_iff_eq.mp ‹_›).symm⟩
      · exact .inl hw
    · exact .inl hw
  | drop g' r' rest =>
    replace hw := watchedBy_setEvent.mp hw
    split at hw
    · subst e
      rw [ExtTreeMap.getElem?_erase] at hw
      split at hw
      · cases hw
      · exact .inl hw
    · exact .inl hw
  | _ => exact .inl hw

/-- A watcher leaves its event only if its callback is going to run, if its registration is
dropped, or if another watcher is registered under its id. -/
theorem watchedBy_stays (hw : s.WatchedBy e id w) :
    s'.WatchedBy e id w ∨ w ∈ place'.duty.pending ∨
      (∃ g, place.duty.closing = some g ∧ (g, ⟨e, id⟩) ∈ place.duty.held) ∨
      ∃ w', place = .watching e w' ∧ id = (s.events e).nextWatcherId := by
  cases h with
  | quiet hsame => exact .inl (by rwa [WatchedBy, hsame.watchers])
  | signal e' | ready e' w' =>
    refine .inl (watchedBy_setEvent.mpr ?_)
    split
    · subst e
      exact hw
    · exact hw
  | take e' =>
    by_cases he : e = e'
    · subst e
      rw [takeWatchers, duty_runWatchers]
      exact .inr (.inl (mem_map.mpr
        ⟨(id, w), mem_toList_iff_getElem?_eq_some.mpr hw, rfl⟩))
    · exact .inl (watchedBy_setEvent.mpr (by rwa [if_neg he]))
  | register e' w' =>
    by_cases he : e = e'
    · subst e
      by_cases hid : id = (s.events e').nextWatcherId
      · exact .inr (.inr (.inr ⟨w', rfl, hid⟩))
      · refine .inl (watchedBy_setEvent.mpr ?_)
        rw [if_pos rfl, EventState.insertWatcher, ExtTreeMap.getElem?_insert,
          if_neg (Std.compare_eq_iff_eq.not.mpr (Ne.symm hid))]
        exact hw
    · exact .inl (watchedBy_setEvent.mpr (by rwa [if_neg he]))
  | drop g' r' rest =>
    by_cases hr : r' = ⟨e, id⟩
    · subst r'
      exact .inr (.inr (.inl ⟨g', rfl, mem_cons_self⟩))
    · refine .inl (watchedBy_setEvent.mpr ?_)
      split
      · subst e
        have hid : r'.id ≠ id := fun hid ↦ hr (by rw [← hid])
        rw [ExtTreeMap.getElem?_erase, if_neg (Std.compare_eq_iff_eq.not.mpr hid)]
        exact hw
      · exact hw
  | _ => exact .inl hw

theorem pending_of (hw : w ∈ place'.duty.pending) :
    w ∈ place.duty.pending ∨ (∃ e id, s.WatchedBy e id w) ∨ ∃ e, place = .watching e w := by
  cases h with
  | quiet hsame hplace hplace' => rcases hplace' with rfl | rfl <;> cases hw
  | take e =>
    rw [takeWatchers, duty_runWatchers] at hw
    obtain ⟨⟨id, w⟩, hmem, rfl⟩ := mem_map.mp hw
    exact .inr (.inl ⟨e, id, mem_toList_iff_getElem?_eq_some.mp hmem⟩)
  | lose w next =>
    rw [duty_resume] at hw
    exact .inl (mem_cons_of_mem _ hw)
  | publish w next | overflow next =>
    rw [duty_resume] at hw
    exact .inl hw
  | win w next hwon => exact .inl (mem_cons_of_mem _ hw)
  | fail w next => exact .inl hw
  | ready e w =>
    cases mem_singleton.mp hw
    exact .inr (.inr ⟨e, rfl⟩)
  | _ => cases hw

/-- A callback that is no longer to run has found its group won or has won it. -/
theorem pending_stays (hw : w ∈ place.duty.pending) : w ∈ place'.duty.pending ∨ s'.Won w.group := by
  cases h with
  | quiet _ hplace | receive hplace => rcases hplace with rfl | rfl <;> cases hw
  | lose w' next hwon =>
    rw [duty_resume]
    obtain rfl | hw := mem_cons.mp hw
    · exact .inr hwon
    · exact .inl hw
  | win w' next hwon =>
    obtain rfl | hw := mem_cons.mp hw
    · exact .inr (won_setGroup.mpr (by rw [if_pos rfl]))
    · exact .inl hw
  | publish w' next | overflow next =>
    rw [duty_resume]
    exact .inl hw
  | fail w next => exact .inl hw
  | _ => cases hw

theorem registered_of (hg : g ∈ s'.history.registered e) :
    g ∈ s.history.registered e ∨
      ∃ w, place = .watching e w ∧ w.group = g ∧
        (w ∈ place'.duty.pending ∨ s'.WatchedBy e (s.events e).nextWatcherId w) := by
  cases h with
  | quiet hsame => exact .inl (by rwa [hsame.history] at hg)
  | ready e' w =>
    change g ∈ Function.update s.history.registered e' _ e at hg
    rw [update_apply] at hg
    split at hg
    · subst e
      obtain rfl | hg := mem_cons.mp hg
      · exact .inr ⟨w, rfl, rfl, .inl mem_cons_self⟩
      · exact .inl hg
    · exact .inl hg
  | register e' w =>
    change g ∈ Function.update s.history.registered e' _ e at hg
    rw [update_apply] at hg
    split at hg
    · subst e
      obtain rfl | hg := mem_cons.mp hg
      · refine .inr ⟨w, rfl, rfl, .inr (watchedBy_setEvent.mpr ?_)⟩
        rw [if_pos rfl, EventState.insertWatcher, ExtTreeMap.getElem?_insert_self]
      · exact .inl hg
    · exact .inl hg
  | _ => exact .inl hg

theorem signalled_of (hg : g ∈ s'.history.signalled) :
    g ∈ s.history.signalled ∨
      (∃ e, g ∈ s.history.registered e ∧ (place' = .signalling e ∨ place = .signalling e)) ∨
      ∃ w ∈ place'.duty.pending, w.group = g := by
  cases h with
  | quiet hsame => exact .inl (by rwa [hsame.history] at hg)
  | signal e =>
    obtain hg | hg := mem_append.mp hg
    · exact .inl hg
    · exact .inr (.inl ⟨e, hg, .inl rfl⟩)
  | take e =>
    obtain hg | hg := mem_append.mp hg
    · exact .inl hg
    · exact .inr (.inl ⟨e, hg, .inr rfl⟩)
  | ready e w =>
    obtain hg | hg := mem_append.mp hg
    · exact .inl hg
    · exact .inr (.inr ⟨w, mem_singleton_self w, (mem_singleton.mp hg).symm⟩)
  | _ => exact .inl hg

theorem winner_of (hg : place'.duty.winner = some w) :
    ¬s.Won w.group ∧ s'.Won w.group ∧ w ∈ place.duty.pending := by
  cases h with
  | quiet hsame hplace hplace' => rcases hplace' with rfl | rfl <;> cases hg
  | take | lose | publish | overflow => simp [takeWatchers] at hg
  | fail => simp [DeliveryPlace.duty] at hg
  | win w next hwon =>
    cases hg
    exact ⟨Bool.eq_false_iff.mp hwon, won_setGroup.mpr (by rw [if_pos rfl]), mem_cons_self⟩
  | ready => cases hg
  | _ => cases hg

/-- The messages grow by the one that a winning callback or `submit` publishes. A winner that
publishes nothing has found the inbox full or the sequence exhausted. -/
theorem published_eq :
    (∃ w message, place.duty.winner = some w ∧ message.event = w.message ∧
      s'.history.published = s.history.published ++ [(message, some w.group)]) ∨
    (∃ message, place.duty.winner = none ∧
      s'.history.published = s.history.published ++ [(message, none)]) ∨
    s'.history.published = s.history.published ∧
      ∀ w, place.duty.winner = some w →
        ∃ next error, place = .publishing w next ∧
          s.publication.publish w.message = .error error := by
  cases h with
  | quiet hsame hplace hplace' =>
    refine .inr (.inr ⟨by rw [hsame.history], fun w hw ↦ ?_⟩)
    rcases hplace with rfl | rfl <;> cases hw
  | receive hplace =>
    refine .inr (.inr ⟨rfl, fun w hw ↦ ?_⟩)
    rcases hplace with rfl | rfl <;> cases hw
  | submit hpublish => exact .inr (.inl ⟨_, rfl, rfl⟩)
  | publish w next hpublish =>
    exact .inl ⟨w, _, rfl, congrArg (·.event) (EventPublication.publish_eq_ok hpublish).1, rfl⟩
  | fail w next hpublish =>
    refine .inr (.inr ⟨rfl, fun w' hw ↦ ?_⟩)
    cases hw
    exact ⟨next, _, rfl, hpublish⟩
  | _ => exact .inr (.inr ⟨rfl, by simp [DeliveryPlace.duty]⟩)

theorem closing_of (hg : place'.duty.closing = some g) :
    place.duty.closing = some g ∨ s.Won g ∨
      ∃ token, s.waitGroups token = some g ∧ s' = s.setWaitGroup token none := by
  cases h with
  | quiet hsame hplace hplace' => rcases hplace' with rfl | rfl <;> cases hg
  | take | lose | publish | overflow => simp [takeWatchers] at hg
  | fail | win => simp [DeliveryPlace.duty] at hg
  | remove token g' htoken =>
    cases hg
    exact .inr (.inr ⟨token, htoken, rfl⟩)
  | reject g' r hwon =>
    cases hg
    exact .inr (.inl hwon)
  | cancel g' | clear g' | drop g' r rest =>
    exact .inl hg
  | _ => cases hg

theorem entering_of (hg : place'.duty.entering = some w) :
    s'.waitGroups w.token = some w.group := by
  cases h with
  | quiet hsame hplace hplace' => rcases hplace' with rfl | rfl <;> cases hg
  | take | lose | publish | overflow => simp [takeWatchers] at hg
  | fail | win => simp [DeliveryPlace.duty] at hg
  | join e w htoken =>
    cases hg
    exact htoken
  | create e w htoken hgroup =>
    cases hg
    rw [hgroup]
    exact update_self ..
  | _ => cases hg

end DeliveryEffect

end Nixe.Runtime
