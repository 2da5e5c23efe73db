import Nixe.Nvdrv.HostControlStep

/-!
# Waits for syncpoints

Which waits are signalled, over whole runs of the host control.

## The invariant

A wait, direct or by an armed event, ends at a number of increments of its syncpoint, its goal. As
long as the wait is pending the counter is short of the goal, by the distance that the two values of
the counter show; once the event object is signalled, the goal is behind. A completion moves the
counter by less than half of its range, so it cannot jump over a target without reaching it.
-/

namespace Nixe.Nvdrv

open Std Gpu Method Function List Option BitVec Bool

/-! ## Jumps of the counter -/

variable {v target : SyncpointValue}

theorem hasReached_eq_false_iff : hasReached v target = false ↔ 2 ^ 31 ≤ (v - target).toNat := by
  rw [hasReached, decide_eq_false_iff_not, and_ambiguousDistance_eq_zero_iff, Nat.not_lt]

theorem hasReached_eq_true_iff : hasReached v target = true ↔ (v - target).toNat < 2 ^ 31 := by
  rw [hasReached, decide_eq_true_eq, and_ambiguousDistance_eq_zero_iff]

/-- The distance to a target that was not reached before a jump: less by the length of the jump
if it is not reached after it either, and at most that length otherwise. -/
theorem distance_of_jump {v' : SyncpointValue} (hjump : (v' - v).toNat < 2 ^ 31)
    (hbefore : hasReached v target = false) :
    if hasReached v' target then (target - v).toNat ≤ (v' - v).toNat
    else (target - v').toNat + (v' - v).toNat = (target - v).toNat := by
  rw [hasReached_eq_false_iff] at hbefore
  split
  · rename_i hafter
    rw [hasReached_eq_true_iff] at hafter
    bv_omega
  · rename_i hafter
    rw [not_eq_true, hasReached_eq_false_iff] at hafter
    bv_omega

/-! ## The invariant -/

/-- Who waits: a thread, or an event slot of a descriptor. -/
inductive WaitOwner where
  | direct (waiter : WaiterId)
  | slot (fd : NvDrvFileDescriptor) (slot : Nat)
  deriving DecidableEq

namespace NvHostControl

variable (c : NvHostControl)

/-- The table entry of the owner has the event object `o`. -/
def Holds : WaitOwner → Nat → Prop
  | .direct waiter, o => ∃ wait, c.directWaits[waiter]? = some wait ∧ wait.event = o
  | .slot fd slot, o => ∃ event, (c.events fd)[slot]? = some event ∧ event.event = o

/-- The owner waits for `target`: a thread whose event is not signalled, or an armed event. -/
def Waits : WaitOwner → Nat → GuestTimelinePoint → Prop
  | .direct waiter, o, target =>
    ∃ wait, c.directWaits[waiter]? = some wait ∧ wait.event = o ∧ wait.target = target ∧
      c.signals[o]? = some false
  | .slot fd slot, o, target =>
    ∃ event, (c.events fd)[slot]? = some event ∧ event.event = o ∧ event.armed = some target

variable {c}

theorem Waits.holds {owner : WaitOwner} {o : Nat} {target : GuestTimelinePoint}
    (h : c.Waits owner o target) : c.Holds owner o := by
  cases owner with
  | direct waiter =>
    obtain ⟨wait, hwait, ho, -⟩ := h
    exact ⟨wait, hwait, ho⟩
  | slot fd slot =>
    obtain ⟨event, hevent, ho, -⟩ := h
    exact ⟨event, hevent, ho⟩

end NvHostControl

/-- A wait for `target` has not ended, and its goal is as far away as the counter shows. -/
def Short (c : NvHostControl) (o : Nat) (target : GuestTimelinePoint) : Prop :=
  ∃ current, c.value target.syncpoint = some current ∧ hasReached current target.value = false ∧
    c.history.goals o = c.goal target current

/-- The goal of an event object is behind. -/
def Ended (c : NvHostControl) (o : Nat) : Prop :=
  o ∈ c.history.cancelled ∨
    (c.history.goals o).2 ≤ c.history.progress (c.history.goals o).1

structure WaitInvariant (c : NvHostControl) : Prop where
  slots : ∀ (fd slot : Nat) (event : GpuSyncpointEvent),
    (c.events fd)[slot]? = some event → event.slot = slot
  /-- The objects in the tables exist. -/
  exist : ∀ owner o, c.Holds owner o → o < c.signals.length
  /-- Every entry has an event object of its own. -/
  distinct : ∀ owner owner' o, c.Holds owner o → c.Holds owner' o → owner = owner'
  pending : ∀ owner o target, c.Waits owner o target → Short c o target
  signalled : ∀ o, c.signals[o]? = some true → Ended c o

variable {c : NvHostControl} {slot : Nat}

/-- Without waits only the signalled objects matter. -/
theorem WaitInvariant.of_empty (h : ∀ owner o, ¬c.Holds owner o)
    (hsignalled : ∀ o, c.signals[o]? = some true → Ended c o) : WaitInvariant c where
  slots fd slot event hevent := absurd ⟨event, hevent, rfl⟩ (h (.slot fd slot) event.event)
  exist owner o ho := absurd ho (h owner o)
  distinct owner _ o ho _ := absurd ho (h owner o)
  pending owner o _ hwaits := absurd hwaits.holds (h owner o)
  signalled := hsignalled

/-! ## Waits that end -/

section

open NvHostControl

variable {c d : NvHostControl}

/-- `d` has no waits that `c` does not have, and signals more only for cancelled waits. -/
structure Fewer (c d : NvHostControl) : Prop where
  slots : ∀ (fd slot : Nat) (event : GpuSyncpointEvent),
    (d.events fd)[slot]? = some event → event.slot = slot
  length : d.signals.length = c.signals.length
  progress : d.history.progress = c.history.progress
  goals : d.history.goals = c.history.goals
  holds : ∀ owner o, d.Holds owner o → c.Holds owner o
  waits : ∀ owner o target, d.Waits owner o target → c.Waits owner o target ∧
    ∀ v, c.value target.syncpoint = some v → d.value target.syncpoint = some v
  signalled : ∀ o, d.signals[o]? = some true →
    c.signals[o]? = some true ∨ o ∈ d.history.cancelled
  cancelled : ∀ o ∈ c.history.cancelled, o ∈ d.history.cancelled

theorem WaitInvariant.of_fewer (hc : WaitInvariant c) (h : Fewer c d) : WaitInvariant d where
  slots := h.slots
  exist owner o ho := by
    rw [h.length]
    exact hc.exist owner o (h.holds owner o ho)
  distinct owner owner' o ho ho' :=
    hc.distinct owner owner' o (h.holds owner o ho) (h.holds owner' o ho')
  pending owner o target hwaits := by
    obtain ⟨hwaits, hvalue⟩ := h.waits owner o target hwaits
    obtain ⟨v, hv, hreached, hgoal⟩ := hc.pending owner o target hwaits
    refine ⟨v, hvalue v hv, hreached, ?_⟩
    rw [goal, h.goals, h.progress]
    exact hgoal
  signalled o ho := by
    rcases h.signalled o ho with ho | ho
    · rw [Ended, h.goals, h.progress]
      exact (hc.signalled o ho).imp_left (h.cancelled o)
    · exact .inl ho

/-- The event is as before, or not armed any more. -/
def Disarmed (before event : GpuSyncpointEvent) : Prop :=
  event.slot = before.slot ∧ event.event = before.event ∧
    (event.armed = before.armed ∨ event.armed = none)

theorem Disarmed.refl (event : GpuSyncpointEvent) : Disarmed event event := ⟨rfl, rfl, .inl rfl⟩

section

variable (hc : WaitInvariant c)

include hc

/-- The entries of `d` are entries of `c`. -/
theorem WaitInvariant.of_tables
    (hdirect : ∀ (waiter : WaiterId) (wait : DirectWait),
      d.directWaits[waiter]? = some wait → c.directWaits[waiter]? = some wait)
    (hevents : ∀ (fd slot : Nat) (event : GpuSyncpointEvent), (d.events fd)[slot]? = some event →
      ∃ before, (c.events fd)[slot]? = some before ∧ Disarmed before event)
    (hvalues : ∀ id v, c.value id = some v → d.value id = some v)
    (hlength : d.signals.length = c.signals.length)
    (hunsignalled : ∀ o : Nat, d.signals[o]? = some false → c.signals[o]? = some false)
    (hsignalled : ∀ o : Nat, d.signals[o]? = some true →
      c.signals[o]? = some true ∨ o ∈ d.history.cancelled)
    (hprogress : d.history.progress = c.history.progress)
    (hgoals : d.history.goals = c.history.goals)
    (hcancelled : ∀ o ∈ c.history.cancelled, o ∈ d.history.cancelled) : WaitInvariant d := by
  refine hc.of_fewer ⟨fun fd slot event hevent ↦ ?_, hlength, hprogress, hgoals,
    fun owner o ho ↦ ?_, fun owner o target h ↦ ⟨?_, hvalues target.syncpoint⟩, hsignalled,
    hcancelled⟩
  · obtain ⟨before, hbefore, hslot, -⟩ := hevents fd slot event hevent
    exact hslot.trans (hc.slots fd slot before hbefore)
  · cases owner with
    | direct waiter =>
      obtain ⟨wait, hwait, ho⟩ := ho
      exact ⟨wait, hdirect waiter wait hwait, ho⟩
    | slot fd slot =>
      obtain ⟨event, hevent, rfl⟩ := ho
      obtain ⟨before, hbefore, -, hobject, -⟩ := hevents fd slot event hevent
      exact ⟨before, hbefore, hobject.symm⟩
  · cases owner with
    | direct waiter =>
      obtain ⟨wait, hwait, hobject, htarget, hsignal⟩ := h
      exact ⟨wait, hdirect waiter wait hwait, hobject, htarget, hunsignalled o hsignal⟩
    | slot fd slot =>
      obtain ⟨event, hevent, rfl, harmed⟩ := h
      obtain ⟨before, hbefore, -, hobject, hbeforeArmed⟩ := hevents fd slot event hevent
      refine ⟨before, hbefore, hobject.symm, ?_⟩
      rcases hbeforeArmed with h | h
      · rw [← h, harmed]
      · exact nomatch harmed.symm.trans h

theorem WaitInvariant.of_same (h : SameWaits c d) : WaitInvariant d := by
  refine hc.of_tables ?_ (fun fd slot event hevent ↦ ⟨event, ?_, .refl event⟩) h.values ?_ ?_ ?_ ?_
    ?_ ?_
  · rw [h.directWaits]
    exact fun _ _ ↦ id
  · rwa [← h.events]
  all_goals simp +contextual [h.signals, h.history]

/-- The events of `d` are events of `c`, some of them not armed any more. -/
theorem WaitInvariant.of_events (hdirect : d.directWaits = c.directWaits)
    (hsignals : d.signals = c.signals) (htimelines : d.timelines = c.timelines)
    (hprogress : d.history.progress = c.history.progress)
    (hgoals : d.history.goals = c.history.goals)
    (hcancelled : d.history.cancelled = c.history.cancelled)
    (hevents : ∀ (fd slot : Nat) (event : GpuSyncpointEvent), (d.events fd)[slot]? = some event →
      ∃ before, (c.events fd)[slot]? = some before ∧ Disarmed before event) :
    WaitInvariant d := by
  refine hc.of_tables ?_ hevents (fun id v hv ↦ ?_) (by rw [hsignals]) ?_ ?_ hprogress hgoals ?_
  · rw [hdirect]
    exact fun _ _ ↦ id
  · rwa [value, htimelines]
  all_goals simp +contextual [hsignals, hcancelled]

theorem WaitInvariant.setIssued (issued : List (NvDrvFileDescriptor × BitVec 32)) :
    WaitInvariant { c with history := { c.history with issued := issued } } :=
  hc.of_events rfl rfl rfl rfl rfl rfl fun _ _ event h ↦ ⟨event, h, .refl event⟩

theorem WaitInvariant.removeDirectWait (waiter : WaiterId) :
    WaitInvariant (c.removeDirectWait waiter) :=
  hc.of_tables (fun _ _ h ↦ (getElem?_erase_eq_some_iff.mp h).2)
    (fun _ _ event h ↦ ⟨event, h, .refl event⟩) (fun _ _ ↦ id) rfl (fun _ ↦ id) (fun _ ↦ .inl) rfl
    rfl fun _ ↦ id

variable {fd : NvDrvFileDescriptor} {event : GpuSyncpointEvent}

theorem WaitInvariant.setEvents {events : ExtTreeMap Nat GpuSyncpointEvent}
    (hevents : ∀ (slot : Nat) (event : GpuSyncpointEvent), events[slot]? = some event →
      ∃ before, (c.events fd)[slot]? = some before ∧ Disarmed before event) :
    WaitInvariant (c.setEvents fd events) := by
  refine hc.of_events rfl rfl rfl rfl rfl rfl fun fd' slot event hevent ↦ ?_
  rw [events_setEvents] at hevent
  split at hevent
  · rename_i h
    subst h
    exact hevents slot event hevent
  · exact ⟨event, hevent, .refl event⟩

variable {slot : Nat} {current : SyncpointValue}
  {published : Option (GuestSyncpointId × SyncpointValue)}

/-- The event object of a slot is reset. -/
theorem WaitInvariant.reset {o : Nat} (hslot : c.Holds (.slot fd slot) o) :
    WaitInvariant { c with signals := c.signals.set o false } := by
  refine hc.of_fewer ⟨hc.slots, length_set, rfl, rfl, fun owner o' ho ↦ ?_,
    fun owner o' target h ↦ ⟨?_, fun _ h ↦ h⟩, fun o' ho ↦ ?_, fun _ ↦ id⟩
  · cases owner <;> exact ho
  · cases owner with
    | direct waiter =>
      obtain ⟨wait, hwait, hobject, htarget, hsignal⟩ := h
      -- The object is that of the slot, so it is not that of the waiting thread.
      have hne : o ≠ o' := by
        rintro rfl
        exact nomatch hc.distinct _ (.direct waiter) o hslot ⟨wait, hwait, hobject⟩
      exact ⟨wait, hwait, hobject, htarget, by rwa [List.getElem?_set_ne hne] at hsignal⟩
    | slot fd' slot' => exact h
  · rw [List.getElem?_set] at ho
    split at ho
    · split at ho <;> exact nomatch ho
    · exact .inl ho

theorem WaitInvariant.clearEvent (hevent : (c.events fd)[slot]? = some event) :
    WaitInvariant (c.clearEvent fd event slot) := by
  refine (hc.reset ⟨event, hevent, rfl⟩).setEvents fun slot' event' hevent' ↦ ?_
  split at hevent'
  · rcases getElem?_insert_eq_some_iff.mp hevent' with ⟨rfl, rfl⟩ | ⟨-, h⟩
    · exact ⟨event, hevent, rfl, rfl, .inr rfl⟩
    · exact ⟨event', h, .refl event'⟩
  · exact ⟨event', (getElem?_erase_eq_some_iff.mp hevent').2, .refl event'⟩

end

theorem getElem?_directWaits_cancelWaits {p : DirectWait → Bool} {waiter : WaiterId}
    {wait : DirectWait} :
    (cancelWaits p c).directWaits[waiter]? = some wait ↔
      c.directWaits[waiter]? = some wait ∧ p wait = false := by
  simp [cancelWaits, filter_eq_some_iff]

theorem WaitInvariant.cancel (hc : WaitInvariant c) (p : DirectWait → Bool) :
    WaitInvariant (cancelWaits p c) := by
  refine hc.of_tables (fun _ _ h ↦ (getElem?_directWaits_cancelWaits.mp h).1)
    (fun _ _ event h ↦ ⟨event, h, .refl event⟩) (fun _ _ ↦ id) (length_signalObjects _ _)
    (fun o ho ↦ ?_) (fun o ho ↦ ?_) rfl rfl fun o ho ↦ mem_append_right _ ho
  · rw [cancelWaits, getElem?_signalObjects, map_eq_some_iff] at ho
    obtain ⟨signal, hbefore, hafter⟩ := ho
    rw [hbefore, (or_eq_false_iff.mp hafter).2]
  · rw [cancelWaits, getElem?_signalObjects, map_eq_some_iff] at ho
    obtain ⟨signal, hbefore, hafter⟩ := ho
    rcases or_eq_true_iff.mp hafter with hcancelled | rfl
    · exact .inr (mem_append_left _ (of_decide_eq_true hcancelled))
    · exact .inl hbefore

/-! ## Waits that start -/

/-- `d` differs from `c` in the entry of `owner`, which has the event object `o` and, if it waits,
waits for a target that is ahead. -/
structure Renewed (owner : WaitOwner) (o : Nat) (c d : NvHostControl) : Prop where
  slots : ∀ (fd slot : Nat) (event : GpuSyncpointEvent),
    (d.events fd)[slot]? = some event → event.slot = slot
  length : c.signals.length ≤ d.signals.length
  exist : o < d.signals.length
  timelines : d.timelines = c.timelines
  progress : d.history.progress = c.history.progress
  cancelled : d.history.cancelled = c.history.cancelled
  goals : ∀ o', o' ≠ o → d.history.goals o' = c.history.goals o'
  own : ∀ owner', c.Holds owner' o → owner' = owner
  holds : ∀ owner' o', d.Holds owner' o' →
    owner' = owner ∧ o' = o ∨ owner' ≠ owner ∧ c.Holds owner' o'
  waits : ∀ owner' o' target, d.Waits owner' o' target →
    owner' = owner ∧ Short d o' target ∨ owner' ≠ owner ∧ c.Waits owner' o' target
  signalled : ∀ o', d.signals[o']? = some true → o' ≠ o ∧ c.signals[o']? = some true

theorem WaitInvariant.of_renewed (hc : WaitInvariant c) (owner : WaitOwner) (o : Nat)
    (h : Renewed owner o c d) : WaitInvariant d where
  slots := h.slots
  exist owner' o' ho := by
    rcases h.holds owner' o' ho with ⟨-, rfl⟩ | ⟨-, ho⟩
    · exact h.exist
    · exact Nat.lt_of_lt_of_le (hc.exist owner' o' ho) h.length
  distinct a b o' ha hb := by
    rcases h.holds a o' ha with ⟨rfl, rfl⟩ | ⟨hane, ha⟩
    · rcases h.holds b o' hb with ⟨rfl, -⟩ | ⟨-, hb⟩
      · rfl
      · exact (h.own b hb).symm
    · rcases h.holds b o' hb with ⟨rfl, rfl⟩ | ⟨-, hb⟩
      · exact h.own a ha
      · exact hc.distinct a b o' ha hb
  pending owner' o' target hwaits := by
    rcases h.waits owner' o' target hwaits with ⟨-, hshort⟩ | ⟨hne, hwaits⟩
    · exact hshort
    · obtain ⟨v, hv, hreached, hgoal⟩ := hc.pending owner' o' target hwaits
      have hobject : o' ≠ o := by
        rintro rfl
        exact hne (h.own owner' hwaits.holds)
      refine ⟨v, ?_, hreached, ?_⟩
      · rwa [value, h.timelines]
      · rwa [goal, h.goals o' hobject, h.progress]
  signalled o' ho := by
    obtain ⟨hne, ho⟩ := h.signalled o' ho
    rw [Ended, h.cancelled, h.goals o' hne, h.progress]
    exact hc.signalled o' ho

/-- A new object is nobody's. -/
theorem WaitInvariant.not_holds_length (hc : WaitInvariant c) (owner : WaitOwner) :
    ¬c.Holds owner c.signals.length := fun h ↦ Nat.lt_irrefl _ (hc.exist owner _ h)

theorem signalled_newObject {o : Nat} (h : c.newObject.signals[o]? = some true) :
    o ≠ c.signals.length ∧ c.signals[o]? = some true := by
  rw [newObject, List.getElem?_append] at h
  split at h
  · rename_i hlt
    exact ⟨Nat.ne_of_lt hlt, h⟩
  · rw [List.getElem?_singleton] at h
    split at h <;> exact nomatch h

theorem WaitInvariant.startDirect (hc : WaitInvariant c) {waiter : WaiterId} {wait : DirectWait}
    (hevent : wait.event = c.signals.length) (hahead : c.Ahead wait.target current) :
    WaitInvariant ((c.newObject.insertDirectWait waiter wait).setGoal wait.event
      (c.goal wait.target current)) := by
  rw [hevent]
  have hnew := hc.not_holds_length
  refine hc.of_renewed (.direct waiter) c.signals.length ⟨hc.slots, ?_, ?_, rfl,
    rfl, rfl, fun o ho ↦ update_of_ne ho _ _, fun owner h ↦ absurd h (hnew owner),
    fun owner o ho ↦ ?_, fun owner o target h ↦ ?_, fun o ↦ signalled_newObject⟩
  · simp [setGoal, insertDirectWait, newObject]
  · simp [setGoal, insertDirectWait, newObject]
  · cases owner with
    | direct waiter' =>
      obtain ⟨wait', hwait, rfl⟩ := ho
      rcases getElem?_insert_eq_some_iff.mp hwait with ⟨rfl, rfl⟩ | ⟨hne, hwait⟩
      · exact .inl ⟨rfl, hevent⟩
      · exact .inr ⟨fun h ↦ hne (WaitOwner.direct.inj h), wait', hwait, rfl⟩
    | slot fd slot => exact .inr ⟨nofun, ho⟩
  · cases owner with
    | direct waiter' =>
      obtain ⟨wait', hwait, rfl, rfl, hsignal⟩ := h
      rcases getElem?_insert_eq_some_iff.mp hwait with ⟨rfl, rfl⟩ | ⟨hne, hwait⟩
      · refine .inl ⟨rfl, current, hahead.1, hahead.2, ?_⟩
        rw [hevent]
        exact update_self _ _ _
      · refine .inr ⟨fun h ↦ hne (WaitOwner.direct.inj h), wait', hwait, rfl, rfl, ?_⟩
        have hlt := hc.exist (.direct waiter') wait'.event ⟨wait', hwait, rfl⟩
        exact (List.getElem?_append_left hlt).symm.trans hsignal
    | slot fd slot => exact .inr ⟨nofun, h⟩

/-- One event is put into a slot, and the others are as before. -/
theorem getElem?_events_insert {fd fd' slot' : Nat} {event' : GpuSyncpointEvent}
    (h : ((c.setEvents fd ((c.events fd).insert slot event)).events fd')[slot']? = some event') :
    (fd' = fd ∧ slot' = slot ∧ event' = event) ∨
      (WaitOwner.slot fd' slot' ≠ .slot fd slot ∧ (c.events fd')[slot']? = some event') := by
  rw [events_setEvents] at h
  split at h
  · rename_i hfd
    subst hfd
    rcases getElem?_insert_eq_some_iff.mp h with ⟨rfl, rfl⟩ | ⟨hne, h⟩
    · exact .inl ⟨rfl, rfl, rfl⟩
    · exact .inr ⟨fun h ↦ hne (WaitOwner.slot.inj h).2, h⟩
  · rename_i hne
    exact .inr ⟨fun h ↦ hne (WaitOwner.slot.inj h).1, h⟩

theorem holds_insert {o object : Nat} {owner : WaitOwner}
    (h : (c.setEvents fd ((c.events fd).insert slot event)).Holds owner o)
    (hobject : event.event = object) :
    owner = .slot fd slot ∧ o = object ∨ owner ≠ .slot fd slot ∧ c.Holds owner o := by
  cases owner with
  | direct waiter => exact .inr ⟨nofun, h⟩
  | slot fd' slot' =>
    obtain ⟨event', hevent', rfl⟩ := h
    rcases getElem?_events_insert hevent' with ⟨rfl, rfl, rfl⟩ | ⟨hne, hevent'⟩
    · exact .inl ⟨rfl, hobject⟩
    · exact .inr ⟨hne, event', hevent', rfl⟩

theorem WaitInvariant.addEvent (hc : WaitInvariant c) (fd : NvDrvFileDescriptor) (slot : Nat)
    (registered : Bool) : WaitInvariant (c.addEvent fd slot registered) := by
  have hnew := hc.not_holds_length
  refine hc.of_renewed (.slot fd slot) c.signals.length
    ⟨fun fd' slot' event h ↦ ?_, ?_, ?_, rfl, rfl, rfl, fun _ _ ↦ rfl,
      fun owner h ↦ absurd h (hnew owner), fun owner o ho ↦ holds_insert ho rfl,
      fun owner o target h ↦ ?_,
      fun o ↦ signalled_newObject⟩
  · rcases getElem?_events_insert h with ⟨rfl, rfl, rfl⟩ | ⟨-, h⟩
    · rfl
    · exact hc.slots fd' slot' event h
  · simp [NvHostControl.addEvent, NvHostControl.setEvents, newObject]
  · simp [NvHostControl.addEvent, NvHostControl.setEvents, newObject]
  · cases owner with
    | direct waiter =>
      obtain ⟨wait, hwait, rfl, rfl, hsignal⟩ := h
      refine .inr ⟨by simp, wait, hwait, rfl, rfl, ?_⟩
      have hlt := hc.exist (.direct waiter) wait.event ⟨wait, hwait, rfl⟩
      exact (List.getElem?_append_left hlt).symm.trans hsignal
    | slot fd' slot' =>
      obtain ⟨event, hevent, rfl, harmed⟩ := h
      rcases getElem?_events_insert hevent with ⟨rfl, rfl, rfl⟩ | ⟨hne, hevent⟩
      · cases harmed
      · exact .inr ⟨hne, event, hevent, rfl, harmed⟩

theorem WaitInvariant.arm (hc : WaitInvariant c) {target : GuestTimelinePoint}
    (hevent : (c.events fd)[slot]? = some event) (hahead : c.Ahead target current) :
    WaitInvariant (c.arm fd event target current) := by
  have hslot := hc.slots fd slot event hevent
  have hown : c.Holds (.slot fd slot) event.event := ⟨event, hevent, rfl⟩
  have hreset := hc.reset hown
  rw [NvHostControl.arm, hslot]
  refine hreset.of_renewed (.slot fd slot) event.event ⟨fun fd' slot' event' h ↦ ?_, Nat.le_refl _,
    hreset.exist (.slot fd slot) _ hown, rfl, rfl, rfl, fun o ho ↦ update_of_ne ho _ _,
    fun owner h ↦ hreset.distinct owner (.slot fd slot) _ h hown, fun owner o ho ↦ ?_,
    fun owner o target' h ↦ ?_, fun o ho ↦ ⟨?_, ho⟩⟩
  · rcases getElem?_events_insert h with ⟨rfl, rfl, rfl⟩ | ⟨-, h⟩
    · rfl
    · exact hc.slots fd' slot' event' h
  · exact holds_insert ho rfl
  · cases owner with
    | direct waiter => exact .inr ⟨nofun, h⟩
    | slot fd' slot' =>
      obtain ⟨event', hevent', rfl, harmed⟩ := h
      rcases getElem?_events_insert hevent' with ⟨rfl, rfl, rfl⟩ | ⟨hne, hevent'⟩
      · cases harmed
        exact .inl ⟨rfl, current, hahead.1, hahead.2, update_self _ _ _⟩
      · exact .inr ⟨hne, event', hevent', rfl, harmed⟩
  · rintro rfl
    have hlt := hc.exist _ _ hown
    change (c.signals.set event.event false)[event.event]? = some true at ho
    rw [List.getElem?_set_self hlt] at ho
    exact nomatch ho

/-! ## Waits that are signalled -/

section

variable {id : GuestSyncpointId} {t t' : GuestTimeline}

theorem getElem?_events_publish {fd slot : Nat} {event : GpuSyncpointEvent} :
    ((c.publish id t t').events fd)[slot]? = some event ↔
      ∃ before, (c.events fd)[slot]? = some before ∧
        retained id t'.currentPoint.value before = some event :=
  getElem?_events_signalReached

/-- An event that is retained is as before, or registered and not armed any more. -/
theorem retained_eq_some {value : SyncpointValue} {before event : GpuSyncpointEvent}
    (h : retained id value before = some event) :
    event = before ∧ before.reachedBy id value = false ∨
      event = { before with armed := none } := by
  rw [retained] at h
  split at h
  · split at h
    · exact .inr (Option.some.inj h).symm
    · exact nomatch h
  · rename_i hreached
    exact .inl ⟨(Option.some.inj h).symm, not_eq_true _ ▸ hreached⟩

theorem holds_publish {owner : WaitOwner} {o : Nat} (h : (c.publish id t t').Holds owner o) :
    c.Holds owner o := by
  cases owner with
  | direct waiter => exact h
  | slot fd slot =>
    obtain ⟨event, hevent, rfl⟩ := h
    obtain ⟨before, hbefore, hretained⟩ := getElem?_events_publish.mp hevent
    refine ⟨before, hbefore, ?_⟩
    rcases retained_eq_some hretained with ⟨rfl, -⟩ | rfl <;> rfl

/-- A wait that goes on has not been reached. -/
theorem waits_publish {owner : WaitOwner} {o : Nat} {target : GuestTimelinePoint}
    (h : (c.publish id t t').Waits owner o target) :
    c.Waits owner o target ∧ targetReached target id t'.currentPoint.value = false := by
  cases owner with
  | direct waiter =>
    obtain ⟨wait, hwait, rfl, rfl, hsignal⟩ := h
    rw [publish, signalReached, getElem?_signalObjects,
      map_eq_some_iff] at hsignal
    obtain ⟨signal, hbefore, hafter⟩ := hsignal
    obtain ⟨hmem, rfl⟩ := or_eq_false_iff.mp hafter
    refine ⟨⟨wait, hwait, rfl, rfl, hbefore⟩, ?_⟩
    by_contra hreached
    exact of_decide_eq_false hmem (mem_reachedObjects.mpr
      (.inl ⟨waiter, wait, hwait, not_eq_false _ ▸ hreached, rfl⟩))
  | slot fd slot =>
    obtain ⟨event, hevent, rfl, harmed⟩ := h
    obtain ⟨before, hbefore, hretained⟩ := getElem?_events_publish.mp hevent
    rcases retained_eq_some hretained with ⟨rfl, hreached⟩ | rfl
    · refine ⟨⟨event, hbefore, rfl, harmed⟩, ?_⟩
      rwa [GpuSyncpointEvent.reachedBy, harmed, any_some] at hreached
    · cases harmed

/-- An object that is signalled was signalled before, or its owner waited for a target that is
reached. -/
theorem signalled_publish {o : Nat}
    (h : (c.publish id t t').signals[o]? = some true) :
    c.signals[o]? = some true ∨ ∃ owner target, c.Waits owner o target ∧
      targetReached target id t'.currentPoint.value = true := by
  rw [publish, signalReached, getElem?_signalObjects,
    map_eq_some_iff] at h
  obtain ⟨signal, hbefore, hafter⟩ := h
  cases signal with
  | true => exact .inl hbefore
  | false =>
    rw [Bool.or_false, decide_eq_true_eq] at hafter
    rcases mem_reachedObjects.mp hafter with
      ⟨waiter, wait, hwait, hreached, rfl⟩ | ⟨fd, slot, event, hevent, hreached, rfl⟩
    · exact .inr ⟨.direct waiter, wait.target, ⟨wait, hwait, rfl, rfl, hbefore⟩, hreached⟩
    · obtain ⟨target, harmed, hreached⟩ := (any_eq_true _ _).mp hreached
      exact .inr ⟨.slot fd slot, target, ⟨event, hevent, rfl, harmed⟩, hreached⟩

variable {id' : GuestSyncpointId}

theorem value_publish :
    (c.publish id t t').value id' =
      if id' = id then some t'.currentPoint.value else c.value id' :=
  value_setTimeline

theorem eq_of_value {v : SyncpointValue} (ht : c.timelines[id]? = some t)
    (hv : c.value id = some v) :
    t.currentPoint.value = v := by
  rw [value, ht] at hv
  exact Option.some.inj hv

theorem progress_publish :
    (c.publish id t t').history.progress id' = c.history.progress id' +
      if id' = id then (t'.currentPoint.value - t.currentPoint.value).toNat else 0 := by
  change Function.update c.history.progress id _ id' = _
  by_cases h : id' = id
  · subst h
    rw [update_self, if_pos rfl]
    rfl
  · rw [update_of_ne h, if_neg h, Nat.add_zero]

theorem WaitInvariant.publish (hc : WaitInvariant c) (ht : c.timelines[id]? = some t)
    (hjump : (t'.currentPoint.value - t.currentPoint.value).toNat < 2 ^ 31) :
    WaitInvariant (c.publish id t t') where
  slots fd slot event hevent := by
    obtain ⟨before, hbefore, hretained⟩ := getElem?_events_publish.mp hevent
    rw [← hc.slots fd slot before hbefore]
    rcases retained_eq_some hretained with ⟨rfl, -⟩ | rfl <;> rfl
  exist owner o ho := by
    rw [NvHostControl.publish, signalReached, length_signalObjects]
    exact hc.exist owner o (holds_publish ho)
  distinct owner owner' o ho ho' :=
    hc.distinct owner owner' o (holds_publish ho) (holds_publish ho')
  pending owner o target hwaits := by
    obtain ⟨hwaits, hnot⟩ := waits_publish hwaits
    obtain ⟨v, hv, hreached, hgoal⟩ := hc.pending owner o target hwaits
    rw [targetReached, and_eq_false_iff, decide_eq_false_iff_not] at hnot
    rw [Short]
    simp only [value_publish, goal, progress_publish]
    by_cases h : target.syncpoint = id
    · obtain rfl := eq_of_value ht (h ▸ hv)
      have hnot := hnot.resolve_left (absurd h)
      have hdistance := distance_of_jump hjump hreached
      rw [hnot, if_neg Bool.false_ne_true] at hdistance
      refine ⟨t'.currentPoint.value, if_pos h, hnot, hgoal.trans ?_⟩
      rw [goal, if_pos h, Nat.add_assoc, Nat.add_comm (BitVec.toNat _), hdistance]
    · refine ⟨v, (if_neg h).trans hv, hreached, hgoal.trans ?_⟩
      rw [goal, if_neg h, Nat.add_zero]
  signalled o ho := by
    have hprogress (id' : GuestSyncpointId) :
        c.history.progress id' ≤ (c.publish id t t').history.progress id' := by
      rw [progress_publish]
      exact Nat.le_add_right _ _
    rcases signalled_publish ho with ho | ⟨owner, target, hwaits, hreached'⟩
    · exact (hc.signalled o ho).imp_right fun h ↦ Nat.le_trans h (hprogress _)
    · obtain ⟨v, hv, hreached, hgoal⟩ := hc.pending owner o target hwaits
      obtain ⟨h, hnow⟩ := (and_eq_true_iff.mp hreached').imp_left of_decide_eq_true
      obtain rfl := eq_of_value ht (h ▸ hv)
      have hdistance := distance_of_jump hjump hreached
      rw [hnow, if_pos rfl] at hdistance
      refine .inr ?_
      change (c.history.goals o).2 ≤ (c.publish id t t').history.progress (c.history.goals o).1
      rw [hgoal, progress_publish, goal, if_pos h]
      exact Nat.add_le_add_left hdistance _

end

theorem TimelinesValid.of_effect (hc : TimelinesValid c) (h : HostEffect c published d) :
    TimelinesValid d := by
  cases h with
  | publish ht hid hvalid hjump => exact (hc.setTimeline hid hvalid).of_timelines rfl
  | clear => exact fun _ _ h ↦ nomatch ExtTreeMap.getElem?_empty.symm.trans h
  | _ => exact hc.of_timelines rfl

theorem WaitInvariant.of_effect (hc : WaitInvariant c) (h : HostEffect c published d) :
    WaitInvariant d := by
  cases h with
  | nothing => exact hc
  | publish ht hid hvalid hjump => exact hc.publish ht hjump
  | endDirect waiter => exact hc.removeDirectWait waiter
  | startDirect hnew hevent hahead => exact hc.startDirect hevent hahead
  | arm hevent hahead => exact hc.arm hevent hahead
  | @armNew fd slot target current hslot hfree hid hahead =>
    exact ((hc.addEvent fd slot false).arm getElem?_events_addEvent hahead).setIssued _
  | clearEvent hevent => exact (hc.clearEvent hevent).setIssued _
  | allocEvent hfree => exact hc.addEvent _ _ true
  | freeEvent fd slot =>
    refine WaitInvariant.setIssued (hc.setEvents fun slot' event hevent ↦ ?_) _
    exact ⟨event, (getElem?_erase_eq_some_iff.mp hevent).2, .refl event⟩
  | openDevice hclosed =>
    exact hc.setEvents fun slot event hevent ↦ nomatch ExtTreeMap.getElem?_empty.symm.trans hevent
  | closeDevice fd =>
    have herase : WaitInvariant { c with devices := c.devices.erase fd } := by
      refine hc.of_events rfl rfl rfl rfl rfl rfl fun fd' slot event hevent ↦ ?_
      obtain ⟨device, hdevice, hevent⟩ := getElem?_events.mp hevent
      have hbefore := getElem?_events.mpr
        ⟨device, (getElem?_erase_eq_some_iff.mp hdevice).2, hevent⟩
      exact ⟨event, hbefore, .refl event⟩
    exact (herase.cancel _).setIssued _
  | clear =>
    refine .of_empty (fun owner o h ↦ ?_) (hc.cancel fun _ ↦ true).signalled
    cases owner with
    | direct waiter =>
      obtain ⟨wait, hwait, -⟩ := h
      exact false_ne_true (getElem?_directWaits_cancelWaits.mp hwait).2.symm
    | slot fd slot =>
      obtain ⟨event, hevent, -⟩ := h
      exact nomatch hevent

end

/-! ## Event ids -/

theorem parseSyncpoint_ofNat {id : Nat} (h : id < syncpointCount) :
    parseSyncpoint (BitVec.ofNat 32 id) = .ok id := by
  have hnat : (BitVec.ofNat 32 id).toNat = id := by
    rw [syncpointCount] at h
    rw [BitVec.toNat_ofNat]
    omega
  rw [parseSyncpoint, hnat, if_pos h]

theorem parseSlot_ofNat (h : slot < eventSlotCount) :
    parseSlot (BitVec.ofNat 32 slot) = .ok slot := by
  have hnat : (BitVec.ofNat 32 slot).toNat = slot := by
    rw [eventSlotCount] at h
    rw [BitVec.toNat_ofNat]
    omega
  rw [parseSlot, hnat, if_pos h]

/-- **Event ids round trip.** -/
theorem decodeQueryEventSlot_encode {id : Nat} (hid : id < syncpointCount)
    (hslot : slot < eventSlotCount) : decodeQueryEventSlot (encodeEventId id slot) = .ok slot := by
  -- The syncpoint has eight bits and the slot six, so the fields do not overlap.
  have hx : BitVec.ofNat 32 id = BitVec.setWidth 32 (BitVec.ofNat 8 id) := by
    apply BitVec.eq_of_toNat_eq
    rw [syncpointCount] at hid
    simp only [BitVec.toNat_ofNat, BitVec.toNat_setWidth]
    omega
  have hs : BitVec.ofNat 32 slot = BitVec.setWidth 32 (BitVec.ofNat 6 slot) := by
    apply BitVec.eq_of_toNat_eq
    rw [eventSlotCount] at hslot
    simp only [BitVec.toNat_ofNat, BitVec.toNat_setWidth]
    omega
  have hencode : encodeEventId id slot = modernEventValid |||
      ((BitVec.setWidth 32 (BitVec.ofNat 8 id) &&& 0x0fff) <<< 16) |||
        BitVec.setWidth 32 (BitVec.ofNat 6 slot) := by
    rw [encodeEventId, hx, hs]
  have hmodern : encodeEventId id slot &&& modernEventValid ≠ 0 := by
    rw [hencode, modernEventValid]
    intro h
    have hbit := congrArg (fun v ↦ v.getLsbD 28) h
    simp at hbit
  have hreserved : encodeEventId id slot &&& 0xe000ffc0 = 0 := by
    rw [hencode, modernEventValid]
    ext i hi
    interval_cases i <;> simp
  have hsyncpoint : (encodeEventId id slot >>> 16) &&& 0x0fff = BitVec.ofNat 32 id := by
    rw [hencode, modernEventValid, hx]
    ext i hi
    interval_cases i <;> simp
  have hfield : encodeEventId id slot &&& 0x3f = BitVec.ofNat 32 slot := by
    rw [hencode, modernEventValid, hs]
    ext i hi
    interval_cases i <;> simp
  rw [decodeQueryEventSlot, if_pos hmodern, hreserved, if_neg (not_not.mpr rfl), hsyncpoint,
    hfield, parseSyncpoint_ofNat hid, parseSlot_ofNat hslot]
  rfl

theorem namesSlot_eq_true_iff {eventId : BitVec 32} :
    namesSlot slot eventId = true ↔ decodeQueryEventSlot eventId = .ok slot := by
  rw [namesSlot]
  cases decodeQueryEventSlot eventId <;> simp

/-- The guest can query every event id that it was given and has neither cleared nor freed. -/
def Queryable (c : NvHostControl) : Prop :=
  ∀ (d : NvDrvDeviceDescriptor) (eventId : BitVec 32), (d.fd, eventId) ∈ c.history.issued →
    ∃ object, queryEvent d eventId c = .ok object c

/-- The event ids that the guest has are those of the events that nobody registered, and maybe
of others. -/
structure IssueInvariant (c : NvHostControl) : Prop where
  occupied : ∀ fd eventId, (fd, eventId) ∈ c.history.issued → ∃ (slot : Nat)
    (event : GpuSyncpointEvent), decodeQueryEventSlot eventId = .ok slot ∧
      (c.events fd)[slot]? = some event
  transient : ∀ (fd slot : Nat) (event : GpuSyncpointEvent), (c.events fd)[slot]? = some event →
    event.registered = false → ∃ eventId, (fd, eventId) ∈ c.history.issued ∧
      decodeQueryEventSlot eventId = .ok slot

section

open NvHostControl

variable {c d : NvHostControl}

theorem IssueInvariant.queryable (hc : IssueInvariant c) (hwaits : WaitInvariant c) :
    Queryable c := by
  intro d eventId h
  obtain ⟨slot, event, hdecode, hevent⟩ := hc.occupied d.fd eventId h
  refine ⟨event.event, eq_ok_of_wp ?_⟩
  simp only [queryEvent, wp_rules, wp_assert, hdecode]
  refine ⟨?_, by simp⟩
  rintro _ ⟨⟩
  rw [hevent]
  refine ⟨?_, by simp⟩
  rintro _ ⟨⟩
  exact ⟨fun _ ↦ ⟨rfl, trivial⟩, fun h ↦ of_decide_eq_false h (hwaits.slots d.fd slot event hevent)⟩

variable {fd slot : Nat} {id : GuestSyncpointId}

/-- The guest has lost an event id whose slot is empty. -/
theorem not_queryable {eventId : BitVec 32} (hissued : (fd, eventId) ∈ c.history.issued)
    (hdecode : decodeQueryEventSlot eventId = .ok slot) (hempty : (c.events fd)[slot]? = none) :
    ¬Queryable c := by
  intro h
  obtain ⟨object, hquery⟩ := h ⟨fd, .hostControl, ⟨0, 0⟩⟩ eventId hissued
  have hfails : wp (queryEvent ⟨fd, .hostControl, ⟨0, 0⟩⟩ eventId)
      ⟨fun _ _ ↦ False, fun _ _ ↦ True, False⟩ c := by
    simp only [queryEvent, wp_rules, wp_assert, hdecode]
    refine ⟨?_, by simp⟩
    rintro _ ⟨⟩
    rw [hempty]
    exact ⟨by simp, fun _ ↦ trivial⟩
  exact ok_of_wp hfails hquery

theorem IssueInvariant.of_events (hc : IssueInvariant c)
    (hissued : d.history.issued = c.history.issued)
    (hevents : ∀ fd slot : Nat, ((d.events fd)[slot]?).map GpuSyncpointEvent.registered =
      ((c.events fd)[slot]?).map GpuSyncpointEvent.registered) : IssueInvariant d where
  occupied fd eventId h := by
    obtain ⟨slot, event, hdecode, hevent⟩ := hc.occupied fd eventId (hissued ▸ h)
    have hafter := hevents fd slot
    rw [hevent, map_some, map_eq_some_iff] at hafter
    obtain ⟨event', hevent', -⟩ := hafter
    exact ⟨slot, event', hdecode, hevent'⟩
  transient fd slot event hevent hregistered := by
    have hbefore := hevents fd slot
    rw [hevent, map_some, eq_comm, map_eq_some_iff] at hbefore
    obtain ⟨before, hbefore, hsame⟩ := hbefore
    rw [hissued]
    exact hc.transient fd slot before hbefore (hsame.trans hregistered)

theorem IssueInvariant.arm (hc : IssueInvariant c) {event : GpuSyncpointEvent}
    (hevent : (c.events fd)[slot]? = some event) (hslot : event.slot = slot)
    (target : GuestTimelinePoint) (current : SyncpointValue) :
    IssueInvariant (c.arm fd event target current) := by
  refine hc.of_events rfl fun fd' slot' ↦ ?_
  change Option.map _ ((events (setEvents _ _ _) fd')[slot']?) = _
  rw [events_setEvents]
  split
  · rename_i h
    subst h
    by_cases h : slot' = event.slot
    · rw [h, ExtTreeMap.getElem?_insert_self, hslot, hevent]
      rfl
    · rw [getElem?_insert_of_ne h]
  · rfl

/-- A new event, which is registered or whose id the guest is given. -/
theorem IssueInvariant.addEvent (hc : IssueInvariant c) (registered : Bool)
    (issued : List (NvDrvFileDescriptor × BitVec 32)) (hfree : (c.events fd)[slot]? = none)
    (hmem : ∀ fd' eventId, (fd', eventId) ∈ issued → (fd', eventId) ∈ c.history.issued ∨
      fd' = fd ∧ decodeQueryEventSlot eventId = .ok slot)
    (hkept : ∀ entry ∈ c.history.issued, entry ∈ issued)
    (hnew : registered = false → ∃ eventId, (fd, eventId) ∈ issued ∧
      decodeQueryEventSlot eventId = .ok slot) :
    IssueInvariant { c.addEvent fd slot registered with
      history := { c.history with issued := issued } } where
  occupied fd' eventId h := by
    rcases hmem fd' eventId h with h | ⟨rfl, hdecode⟩
    · obtain ⟨slot', event, hdecode, hevent⟩ := hc.occupied fd' eventId h
      refine ⟨slot', event, hdecode, ?_⟩
      change (events (setEvents _ _ _) fd')[slot']? = _
      rw [events_setEvents]
      split
      · rename_i hfd
        subst hfd
        have hne : slot' ≠ slot := by
          rintro rfl
          exact nomatch hfree.symm.trans hevent
        rwa [getElem?_insert_of_ne hne]
      · exact hevent
    · refine ⟨slot, ⟨slot, c.signals.length, registered, none⟩, hdecode, ?_⟩
      exact getElem?_events_addEvent
  transient fd' slot' event hevent hregistered := by
    rcases getElem?_events_insert hevent with ⟨rfl, rfl, rfl⟩ | ⟨-, hevent⟩
    · exact hnew hregistered
    · obtain ⟨eventId, hissued, hdecode⟩ := hc.transient fd' slot' event hevent hregistered
      exact ⟨eventId, hkept _ hissued, hdecode⟩

/-- The event of one slot is cleared or freed, and with it the event ids of the slot. -/
theorem IssueInvariant.retire (hc : IssueInvariant c)
    (hissued : d.history.issued = c.history.issued)
    (hother : ∀ fd' slot', WaitOwner.slot fd' slot' ≠ .slot fd slot →
      (d.events fd')[slot']? = (c.events fd')[slot']?)
    (hslot : ∀ event : GpuSyncpointEvent, (d.events fd)[slot]? = some event →
      event.registered = true) :
    IssueInvariant (d.retire fd (namesSlot slot)) where
  occupied fd' eventId h := by
    obtain ⟨h, hnot⟩ := mem_filter.mp h
    obtain ⟨slot', event, hdecode, hevent⟩ := hc.occupied fd' eventId (hissued ▸ h)
    refine ⟨slot', event, hdecode, (hother fd' slot' ?_).trans hevent⟩
    intro hsame
    obtain ⟨rfl, rfl⟩ := WaitOwner.slot.inj hsame
    simp [namesSlot_eq_true_iff.mpr hdecode] at hnot
  transient fd' slot' event hevent hregistered := by
    by_cases hsame : WaitOwner.slot fd' slot' = .slot fd slot
    · obtain ⟨rfl, rfl⟩ := WaitOwner.slot.inj hsame
      cases hregistered.symm.trans (hslot event hevent)
    · obtain ⟨eventId, hmem, hdecode⟩ :=
        hc.transient fd' slot' event ((hother fd' slot' hsame).symm.trans hevent) hregistered
      refine ⟨eventId, mem_filter.mpr ⟨hissued ▸ hmem, ?_⟩, hdecode⟩
      rw [not_eq_true', and_eq_false_iff, decide_eq_false_iff_not]
      refine or_iff_not_imp_left.mpr fun hfd ↦ ?_
      rw [← not_eq_true, namesSlot_eq_true_iff, hdecode]
      rintro ⟨⟩
      exact hsame (congrArg (WaitOwner.slot · slot) (not_not.mp hfd))

theorem IssueInvariant.of_same (hc : IssueInvariant c) (h : SameWaits c d) : IssueInvariant d :=
  hc.of_events (by rw [h.history]) fun fd slot ↦ by rw [h.events]

/-- Whether publishing a point keeps the events that nobody registered. -/
def KeepsTransient (c : NvHostControl)
    (published : Option (GuestSyncpointId × SyncpointValue)) : Prop :=
  ∀ id value, published = some (id, value) → ∀ (fd slot : Nat) (event : GpuSyncpointEvent),
    (c.events fd)[slot]? = some event → event.registered = false →
      event.reachedBy id value = false

theorem IssueInvariant.publish (hc : IssueInvariant c) {t t' : GuestTimeline}
    (hkeeps : KeepsTransient c (some (id, t'.currentPoint.value))) :
    IssueInvariant (c.publish id t t') := by
  refine hc.of_events rfl fun fd slot ↦ ?_
  cases hbefore : (c.events fd)[slot]? with
  | none =>
    have hnone : ((c.publish id t t').events fd)[slot]? = none := by
      refine eq_none_iff_forall_ne_some.mpr fun event h ↦ ?_
      obtain ⟨before, h, -⟩ := getElem?_events_publish.mp h
      exact nomatch hbefore.symm.trans h
    rw [hnone]
  | some event =>
    have hretained : ∃ after, retained id t'.currentPoint.value event = some after ∧
        after.registered = event.registered := by
      rw [retained]
      cases hregistered : event.registered with
      | true =>
        split
        · exact ⟨_, rfl, rfl⟩
        · exact ⟨event, rfl, hregistered⟩
      | false =>
        rw [hkeeps id _ rfl fd slot event hbefore hregistered, if_neg Bool.false_ne_true]
        exact ⟨event, rfl, hregistered⟩
    obtain ⟨after, hafter, hsame⟩ := hretained
    have hevent : ((c.publish id t t').events fd)[slot]? = some after :=
      getElem?_events_publish.mpr ⟨event, hbefore, hafter⟩
    rw [hevent, map_some, map_some, hsame]

/-- A point that reaches the target of an event that nobody registered takes its id from the
guest. -/
theorem not_queryable_publish (hc : IssueInvariant c) {t t' : GuestTimeline}
    (hloses : ¬KeepsTransient c (some (id, t'.currentPoint.value))) :
    ¬Queryable (c.publish id t t') := by
  simp only [KeepsTransient, Option.some.injEq, Prod.mk.injEq, not_forall] at hloses
  obtain ⟨_, _, ⟨rfl, rfl⟩, fd, slot, event, hevent, hregistered, hreached⟩ := hloses
  obtain ⟨eventId, hissued, hdecode⟩ := hc.transient fd slot event hevent hregistered
  refine not_queryable hissued hdecode (eq_none_iff_forall_ne_some.mpr fun after h ↦ ?_)
  obtain ⟨before, hbefore, hretained⟩ := getElem?_events_publish.mp h
  cases hbefore.symm.trans hevent
  rw [retained, if_pos (not_eq_false _ ▸ hreached), hregistered] at hretained
  exact nomatch hretained

theorem IssueInvariant.of_effect (hc : IssueInvariant c) (hwaits : WaitInvariant c)
    {published : Option (GuestSyncpointId × SyncpointValue)} (h : HostEffect c published d)
    (hkeeps : KeepsTransient c published) : IssueInvariant d := by
  cases h with
  | nothing => exact hc
  | publish ht hid hvalid hjump => exact hc.publish hkeeps
  | endDirect | startDirect => exact hc.of_events rfl fun _ _ ↦ rfl
  | arm hevent hahead => exact hc.arm hevent (hwaits.slots _ _ _ hevent) _ _
  | @armNew fd slot target current hslot hfree hid hahead =>
    have hdecode := decodeQueryEventSlot_encode hid hslot
    have hadd := hc.addEvent false
      ((fd, encodeEventId target.syncpoint slot) :: c.history.issued) hfree
      (fun fd' eventId h ↦ by
        rcases mem_cons.mp h with h | h
        · cases h
          exact .inr ⟨rfl, hdecode⟩
        · exact .inl h)
      (fun _ h ↦ mem_cons_of_mem _ h) fun _ ↦ ⟨_, mem_cons_self, hdecode⟩
    exact (hadd.arm getElem?_events_addEvent rfl target current).of_events rfl fun _ _ ↦ rfl
  | @clearEvent fd slot event hevent =>
    refine hc.retire rfl (fun fd' slot' hne ↦ ?_) fun event' h ↦ ?_
    · rw [clearEvent, events_setEvents]
      split
      · rename_i hfd
        subst hfd
        have hne : slot' ≠ slot := fun h ↦ hne (by rw [h])
        split
        · exact getElem?_insert_of_ne hne
        · exact getElem?_erase_of_ne hne
      · rfl
    · rw [clearEvent, events_setEvents, if_pos rfl] at h
      split at h
      · rename_i hregistered
        rw [ExtTreeMap.getElem?_insert_self] at h
        cases h
        exact hregistered
      · exact absurd rfl (getElem?_erase_eq_some_iff.mp h).1
  | allocEvent hfree =>
    exact hc.addEvent true c.history.issued hfree (fun _ _ h ↦ .inl h) (fun _ h ↦ h) (by simp)
  | freeEvent fd slot =>
    refine hc.retire rfl (fun fd' slot' hne ↦ ?_) fun event' h ↦ ?_
    · rw [events_setEvents]
      split
      · rename_i hfd
        subst hfd
        exact getElem?_erase_of_ne fun h ↦ hne (by rw [h])
      · rfl
    · rw [events_setEvents, if_pos rfl] at h
      exact absurd rfl (getElem?_erase_eq_some_iff.mp h).1
  | @openDevice fd hclosed =>
    refine hc.of_events rfl fun fd' slot ↦ ?_
    rw [events_setEvents]
    split
    · rename_i h
      rw [h, events, hclosed]
      rfl
    · rfl
  | closeDevice fd =>
    have hevents {fd' slot : Nat} (h : fd' ≠ fd) :
        (events { c with devices := c.devices.erase fd } fd')[slot]? =
          (c.events fd')[slot]? := by
      rw [events, getElem?_erase_of_ne h]
      rfl
    refine ⟨fun fd' eventId h ↦ ?_, fun fd' slot event hevent hregistered ↦ ?_⟩
    · obtain ⟨h, hne⟩ := mem_filter.mp h
      have hfd : fd' ≠ fd := by simpa using hne
      obtain ⟨slot, event, hdecode, hevent⟩ := hc.occupied fd' eventId h
      exact ⟨slot, event, hdecode, (hevents hfd).trans hevent⟩
    · have hfd : fd' ≠ fd := by
        obtain ⟨device, hdevice, -⟩ := getElem?_events.mp hevent
        exact (getElem?_erase_eq_some_iff.mp hdevice).1
      obtain ⟨eventId, hissued, hdecode⟩ :=
        hc.transient fd' slot event ((hevents hfd).symm.trans hevent) hregistered
      exact ⟨eventId, mem_filter.mpr ⟨hissued, by simpa using hfd⟩, hdecode⟩
  | clear =>
    exact ⟨by simp, by rintro _ _ _ ⟨⟩⟩

end

/-! ## Runs -/

theorem not_holds_new (owner : WaitOwner) (o : Nat) : ¬NvHostControl.new.Holds owner o := by
  intro h
  cases owner with
  | direct waiter =>
    obtain ⟨wait, hwait, -⟩ := h
    exact nomatch hwait
  | slot fd slot =>
    obtain ⟨event, hevent, -⟩ := h
    exact nomatch hevent

theorem timelinesValid_new : TimelinesValid .new := nofun

theorem waitInvariant_new : WaitInvariant .new := .of_empty not_holds_new nofun

theorem hostStep_of_machine {c' : NvHostControl} {call : HostControlCall}
    {answer : Except NvDrvCallError HostControlAnswer} (hc : TimelinesValid c)
    (h : machine HostControlCall.run c call = some (answer, c')) :
    HostStep c (publishes c call) c' := by
  rcases machine_eq_some_iff.mp h with ⟨_, -, hok⟩ | ⟨_, -, herr⟩
  · exact ok_of_wp (run_step hc call) hok
  · exact err_of_wp (run_step hc call) herr

/-- The call does not reach the target of an event that nobody registered. -/
def KeepsIssued (c : NvHostControl) (call : HostControlCall) : Prop :=
  KeepsTransient c (publishes c call)

theorem KeepsTransient.of_same {d : NvHostControl}
    {published : Option (GuestSyncpointId × SyncpointValue)} (h : SameWaits c d) :
    KeepsTransient d published ↔ KeepsTransient c published := by
  simp only [KeepsTransient, h.events]

section

variable {es : List (HostControlCall × Except NvDrvCallError HostControlAnswer)}
  {c : NvHostControl}

theorem run_waits (h : (machine HostControlCall.run).Run .new es c) : WaitInvariant c := by
  have hrun : TimelinesValid c ∧ WaitInvariant c := by
    refine Machine.Run.invariant (I := fun c ↦ TimelinesValid c ∧ WaitInvariant c) ?_
      ⟨timelinesValid_new, waitInvariant_new⟩ h
    rintro s call answer s' ⟨htimelines, hwaits⟩ hstep
    obtain ⟨u, hquiet, heffect⟩ := hostStep_of_machine htimelines hstep
    exact ⟨hquiet.2.of_effect heffect, (hwaits.of_same hquiet.1).of_effect heffect⟩
  exact hrun.2

/-- The event ids stay with the guest exactly as long as no event that nobody registered is
reached. -/
theorem queryable_iff (h : (machine HostControlCall.run).Run .new es c) :
    Machine.Throughout (machine HostControlCall.run) Queryable .new es ↔
      Machine.Along (machine HostControlCall.run) KeepsIssued .new (es.map Prod.fst) := by
  refine Machine.throughout_iff_along (I := fun c ↦ TimelinesValid c ∧ WaitInvariant c ∧
    IssueInvariant c) (fun s hs ↦ hs.2.2.queryable hs.2.1) ?_ ?_
    ⟨timelinesValid_new, waitInvariant_new, nofun, nofun⟩ h
  · rintro s call answer s' ⟨htimelines, hwaits, hissue⟩ hkeeps hstep
    obtain ⟨u, hquiet, heffect⟩ := hostStep_of_machine htimelines hstep
    have hwaits' := hwaits.of_same hquiet.1
    exact ⟨hquiet.2.of_effect heffect, hwaits'.of_effect heffect,
      (hissue.of_same hquiet.1).of_effect hwaits' heffect
        ((KeepsTransient.of_same hquiet.1).mpr hkeeps)⟩
  · rintro s call answer s' ⟨htimelines, hwaits, hissue⟩ hloses hstep
    obtain ⟨u, hquiet, heffect⟩ := hostStep_of_machine htimelines hstep
    rw [KeepsIssued, ← KeepsTransient.of_same hquiet.1] at hloses
    generalize publishes s call = published at heffect hloses
    -- A call that publishes nothing keeps the ids, so this one has published a point.
    cases heffect with
    | publish ht hid hvalid hjump =>
      exact not_queryable_publish (hissue.of_same hquiet.1) hloses
    | _ => exact absurd nofun hloses

/-- **No lost or spurious wake-up.** In every run, a wait that has not been signalled is short of
its target, by the distance between the counter and the target; the event object of a wait is
signalled only when the syncpoint has made the increments up to the target, or when the wait is
cancelled; and every event id can be queried until the guest clears or frees it, exactly if no call
reaches the target of an event that nobody registered. -/
theorem wakeups_exact (h : (machine HostControlCall.run).Run .new es c) :
    (∀ owner o target, c.Waits owner o target →
      ∃ current, c.value target.syncpoint = some current ∧
        hasReached current target.value = false ∧ (c.history.goals o).1 = target.syncpoint ∧
          c.history.progress target.syncpoint < (c.history.goals o).2) ∧
    (∀ o, c.signals[o]? = some true → o ∈ c.history.cancelled ∨
      (c.history.goals o).2 ≤ c.history.progress (c.history.goals o).1) ∧
    (Machine.Throughout (machine HostControlCall.run) Queryable .new es ↔
      Machine.Along (machine HostControlCall.run) KeepsIssued .new (es.map Prod.fst)) := by
  have hwaits := run_waits h
  refine ⟨fun owner o target howner ↦ ?_, hwaits.signalled, queryable_iff h⟩
  obtain ⟨current, hvalue, hreached, hgoal⟩ := hwaits.pending owner o target howner
  refine ⟨current, hvalue, hreached, by rw [hgoal]; rfl, ?_⟩
  rw [hgoal]
  refine Nat.lt_add_of_pos_right ?_
  rw [hasReached_eq_false_iff] at hreached
  bv_omega

end

/-! ## An event id that is lost -/

def controlDescriptor : NvDrvDeviceDescriptor := ⟨1, .hostControl, ⟨1, 7⟩⟩

/-- `IOCTL_SYNCPT_WAIT_EVENT` for the first increment of a syncpoint, with a timeout. -/
def firstIncrementWait (syncpoint : UInt8) : HostControlCall :=
  .ioctl controlDescriptor ioctlSyncptWaitEvent
    [syncpoint, 0, 0, 0, 1, 0, 0, 0, 1, 0, 0, 0, 0, 0, 0, 0] ⟨7, 1⟩ ⟨0, true⟩

def incrementCall (syncpoint : UInt8) : HostControlCall :=
  .ioctl controlDescriptor ioctlSyncptIncrement [syncpoint, 0, 0, 0] ⟨7, 1⟩ ⟨0, true⟩

/-- The guest is given an event id, the syncpoint reaches the target, and then the event id, which
the guest has neither cleared nor freed, is a bad parameter. -/
theorem event_id_lost :
    ∃ es c, (machine HostControlCall.run).Run .new es c ∧
      es.map Prod.fst = [.openDevice 1, firstIncrementWait 5, incrementCall 5,
        .queryEvent controlDescriptor 0x10050000] ∧
      es.map Prod.snd =
        [.ok .done,
          .ok (.ioctl (.driverResult [5, 0, 0, 0, 1, 0, 0, 0, 1, 0, 0, 0, 0, 0, 5, 16] nvTimeout)),
          .ok (.ioctl (.complete [5, 0, 0, 0])), .error (.guestResult nvBadParameter)] ∧
      ¬Queryable c := by
  have hexec : ∃ r ∈ (machine HostControlCall.run).exec .new [.openDevice 1, firstIncrementWait 5,
      incrementCall 5, .queryEvent controlDescriptor 0x10050000], r.1.map Prod.snd =
        [.ok .done,
          .ok (.ioctl (.driverResult [5, 0, 0, 0, 1, 0, 0, 0, 1, 0, 0, 0, 0, 0, 5, 16] nvTimeout)),
          .ok (.ioctl (.complete [5, 0, 0, 0])), .error (.guestResult nvBadParameter)] ∧
          (1, 0x10050000) ∈ r.2.history.issued ∧ (r.2.events 1)[0]? = none := by decide +kernel
  obtain ⟨es, c, hrun, hcalls, hanswers, hmem, hempty⟩ := Machine.exists_run_of_exec hexec
  have hdecode : decodeQueryEventSlot 0x10050000 = .ok 0 := by decide
  exact ⟨es, c, hrun, hcalls, hanswers, not_queryable hmem hdecode hempty⟩

/-- The wait is pending after the increment of another syncpoint, which leaves its event id with the
guest. -/
theorem wakeups_exact_pending :
    ∃ es c, (machine HostControlCall.run).Run .new es c ∧
      es.map Prod.fst = [.openDevice 1, firstIncrementWait 5, incrementCall 6] ∧
      c.Waits (.slot 1 0) 0 ⟨5, 1⟩ ∧ c.history.progress 5 < (c.history.goals 0).2 ∧
      (Machine.Throughout (machine HostControlCall.run) Queryable .new es ↔
        Machine.Along (machine HostControlCall.run) KeepsIssued .new
          [.openDevice 1, firstIncrementWait 5, incrementCall 6]) := by
  have hexec : ∃ r ∈ (machine HostControlCall.run).exec .new
      [.openDevice 1, firstIncrementWait 5, incrementCall 6],
        (r.2.events 1)[0]? = some ⟨0, 0, false, some ⟨5, 1⟩⟩ := by decide +kernel
  obtain ⟨es, c, hrun, hcalls, hevent⟩ := Machine.exists_run_of_exec hexec
  have hwaits : c.Waits (.slot 1 0) 0 ⟨5, 1⟩ := ⟨_, hevent, rfl, rfl⟩
  obtain ⟨hpending, -, hqueryable⟩ := wakeups_exact hrun
  obtain ⟨current, -, -, -, hshort⟩ := hpending _ _ _ hwaits
  exact ⟨es, c, hrun, hcalls, hwaits, hshort, hcalls ▸ hqueryable⟩

end Nixe.Nvdrv
