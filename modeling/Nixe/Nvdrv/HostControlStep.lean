import Nixe.Nvdrv.HostControl

/-!
# The calls of the host control

What a call does to the waits. It may make or reserve timelines, which leaves the counters and the
waits alone, and then has one effect on the waits; an effect is named together with what the call
has checked for it, and with the point that it publishes.
-/

namespace Nixe.Nvdrv

open Std Gpu Method GuestTimeline List Option

/-! ## Updates -/

theorem getElem?_signalObjects (signals : List Bool) (objects : List Nat) (o : Nat) :
    (signalObjects signals objects)[o]? =
      signals[o]?.map fun signalled ↦ decide (o ∈ objects) || signalled := by
  induction objects generalizing signals with
  | nil => simp [signalObjects]
  | cons object objects ih =>
    rw [signalObjects, foldl_cons, ← signalObjects, ih, List.getElem?_set]
    by_cases h : object = o
    · subst h
      cases hs : signals[object]? with
      | none => simp [List.getElem?_eq_none_iff.mp hs]
      | some b => simp [(List.getElem?_eq_some_iff.mp hs).1]
    · simp [h, Ne.symm h]

@[simp] theorem length_signalObjects (signals : List Bool) (objects : List Nat) :
    (signalObjects signals objects).length = signals.length := by
  induction objects generalizing signals with
  | nil => rfl
  | cons object objects ih =>
    rw [signalObjects, foldl_cons, ← signalObjects, ih, length_set]

namespace NvHostControl

variable {c : NvHostControl} {fd fd' : NvDrvFileDescriptor} {id id' : GuestSyncpointId}

theorem events_setEvents {events : ExtTreeMap Nat GpuSyncpointEvent} :
    (c.setEvents fd events).events fd' = if fd' = fd then events else c.events fd' := by
  rw [NvHostControl.events, setEvents]
  by_cases h : fd' = fd
  · subst h
    rw [ExtTreeMap.getElem?_insert_self, if_pos rfl]
    rfl
  · rw [getElem?_insert_of_ne h, if_neg h]
    rfl

variable {slot : Nat} {event : GpuSyncpointEvent} {value : SyncpointValue}

theorem getElem?_events_addEvent {registered : Bool} :
    ((c.addEvent fd slot registered).events fd)[slot]? =
      some ⟨slot, c.signals.length, registered, none⟩ := by
  rw [addEvent, events_setEvents, if_pos rfl, ExtTreeMap.getElem?_insert_self]

theorem getElem?_events :
    (c.events fd)[slot]? = some event ↔
      ∃ device, c.devices[fd]? = some device ∧ device.events[slot]? = some event := by
  rw [NvHostControl.events]
  cases c.devices[fd]? <;> simp

theorem value_setTimeline {timeline : GuestTimeline} :
    (c.setTimeline id timeline).value id' =
      if id' = id then some timeline.currentPoint.value else c.value id' := by
  rw [NvHostControl.value, setTimeline]
  by_cases h : id' = id
  · subst h
    rw [ExtTreeMap.getElem?_insert_self, if_pos rfl]
    rfl
  · rw [getElem?_insert_of_ne h, if_neg h]
    rfl

theorem getElem?_events_signalReached :
    ((c.signalReached id value).events fd)[slot]? = some event ↔
      ∃ before, (c.events fd)[slot]? = some before ∧ retained id value before = some event := by
  rw [getElem?_events]
  simp only [signalReached, ExtTreeMap.getElem?_map, map_eq_some_iff]
  constructor
  · rintro ⟨_, ⟨device, hdevice, rfl⟩, hevent⟩
    rw [ExtTreeMap.getElem?_filterMap', bind_eq_some_iff] at hevent
    obtain ⟨before, hbefore, hretained⟩ := hevent
    exact ⟨before, getElem?_events.mpr ⟨device, hdevice, hbefore⟩, hretained⟩
  · rintro ⟨before, hbefore, hretained⟩
    obtain ⟨device, hdevice, hbefore⟩ := getElem?_events.mp hbefore
    refine ⟨_, ⟨device, hdevice, rfl⟩, ?_⟩
    rw [ExtTreeMap.getElem?_filterMap', hbefore]
    exact hretained

theorem mem_reachedObjects {o : Nat} :
    o ∈ c.reachedObjects id value ↔
      (∃ (waiter : WaiterId) (wait : DirectWait), c.directWaits[waiter]? = some wait ∧
        targetReached wait.target id value = true ∧ wait.event = o) ∨
      ∃ (fd slot : Nat) (event : GpuSyncpointEvent), (c.events fd)[slot]? = some event ∧
        event.reachedBy id value = true ∧ event.event = o := by
  simp only [reachedObjects, List.mem_append, List.mem_map, List.mem_filter, List.mem_flatMap,
    Prod.exists, ExtTreeMap.mem_toList_iff_getElem?_eq_some, getElem?_events]
  constructor
  · rintro (⟨waiter, wait, ⟨h, hreached⟩, rfl⟩ | ⟨fd, device, hdevice, slot, event, ⟨h, hr⟩, rfl⟩)
    · exact .inl ⟨waiter, wait, h, hreached, rfl⟩
    · exact .inr ⟨fd, slot, event, ⟨device, hdevice, h⟩, hr, rfl⟩
  · rintro (⟨waiter, wait, h, hreached, rfl⟩ | ⟨fd, slot, event, ⟨device, hdevice, h⟩, hr, rfl⟩)
    · exact .inl ⟨waiter, wait, ⟨h, hreached⟩, rfl⟩
    · exact .inr ⟨fd, device, hdevice, slot, event, ⟨h, hr⟩, rfl⟩

end NvHostControl

/-! ## Timelines of waits -/

/-- The timeline of a syncpoint is its own, and valid. -/
def TimelinesValid (c : NvHostControl) : Prop :=
  ∀ (id : GuestSyncpointId) (timeline : GuestTimeline), c.timelines[id]? = some timeline →
    timeline.syncpoint = id ∧ timeline.Valid

/-- The tables of waits are the same, and so are the counters that exist. -/
structure SameWaits (c d : NvHostControl) : Prop where
  directWaits : d.directWaits = c.directWaits
  devices : d.devices = c.devices
  signals : d.signals = c.signals
  history : d.history = c.history
  values : ∀ id v, c.value id = some v → d.value id = some v

theorem SameWaits.refl (c : NvHostControl) : SameWaits c c := ⟨rfl, rfl, rfl, rfl, fun _ _ h ↦ h⟩

variable {c d : NvHostControl} {t : GuestTimeline}

theorem SameWaits.trans {e : NvHostControl} (h : SameWaits c d) (h' : SameWaits d e) :
    SameWaits c e :=
  ⟨h'.directWaits.trans h.directWaits, h'.devices.trans h.devices, h'.signals.trans h.signals,
    h'.history.trans h.history, fun id v hv ↦ h'.values id v (h.values id v hv)⟩

section

variable {c d : NvHostControl}

theorem SameWaits.events (h : SameWaits c d) (fd : NvDrvFileDescriptor) :
    d.events fd = c.events fd := by
  rw [NvHostControl.events, NvHostControl.events, h.devices]

variable {id : GuestSyncpointId} {timeline : GuestTimeline}

/-- A timeline that shows the value that was shown before, if there was one. -/
theorem SameWaits.setTimeline
    (hvalue : ∀ v, c.value id = some v → timeline.currentPoint.value = v) :
    SameWaits c (c.setTimeline id timeline) := by
  refine ⟨rfl, rfl, rfl, rfl, fun id' v hv ↦ ?_⟩
  rw [NvHostControl.value_setTimeline]
  split
  · rename_i h
    subst h
    rw [hvalue v hv]
  · exact hv

theorem TimelinesValid.setTimeline (hc : TimelinesValid c) (hid : timeline.syncpoint = id)
    (hvalid : timeline.Valid) : TimelinesValid (c.setTimeline id timeline) := by
  intro id' timeline' h
  rcases getElem?_insert_eq_some_iff.mp h with ⟨rfl, rfl⟩ | ⟨-, h⟩
  · exact ⟨hid, hvalid⟩
  · exact hc id' timeline' h

theorem TimelinesValid.of_timelines (hc : TimelinesValid c) (h : d.timelines = c.timelines) :
    TimelinesValid d := fun id timeline hd ↦ hc id timeline (h ▸ hd)

end

/-- A call that leaves the waits alone and the timelines valid. -/
def Quiet (c d : NvHostControl) : Prop := SameWaits c d ∧ TimelinesValid d

theorem allocateTimelineInstance_spec (d : NvDrvDeviceDescriptor) (request : BitVec 32)
    (c : NvHostControl) :
    wp (allocateTimelineInstance d request)
      ⟨fun _ c' ↦ SameWaits c c' ∧ c'.timelines = c.timelines ∧
          c'.channelSyncpoints = c.channelSyncpoints,
        fun _ c' ↦ c' = c, False⟩ c := by
  simp only [allocateTimelineInstance, wp_rules]
  exact ⟨fun _ _ ↦ ⟨⟨rfl, rfl, rfl, rfl, fun _ _ h ↦ h⟩, trivial, trivial⟩, fun _ ↦ trivial⟩

theorem getTimeline_spec (d : NvDrvDeviceDescriptor) (id : GuestSyncpointId) (request : BitVec 32)
    (hc : TimelinesValid c) :
    wp (getTimeline d id request)
      ⟨fun timeline c' ↦ Quiet c c' ∧ c'.timelines[id]? = some timeline,
        fun _ c' ↦ c' = c, False⟩ c := by
  simp only [getTimeline, ensureTimeline, wp_rules, wp_ite]
  refine ⟨fun hpresent ↦ ?_, fun hpresent ↦ ?_⟩
  · refine ⟨fun timeline h ↦ ⟨⟨.refl c, hc⟩, h⟩, fun hnone ↦ ?_⟩
    rw [hnone] at hpresent
    cases hpresent
  · have hnone : c.timelines[id]? = none := by simpa using hpresent
    refine wp_of_ok (allocateTimelineInstance_spec d ioctlSyncptRead c) ?_
    rintro instanceId c' ⟨hsame, htimelines, -⟩
    have hlookup : (c'.setTimeline id (.new id instanceId (timelineOwner d) 0)).timelines[id]? =
        some (.new id instanceId (timelineOwner d) 0) := ExtTreeMap.getElem?_insert_self
    simp only [hlookup]
    refine ⟨fun timeline h ↦ ⟨⟨hsame.trans (.setTimeline fun v hv ↦ ?_), ?_⟩, h⟩, by simp⟩
    · rw [NvHostControl.value, htimelines, hnone] at hv
      cases hv
    · exact (hc.of_timelines htimelines).setTimeline rfl (valid_new _ _ _ _)

theorem reserveChannelSubmission_spec (d : NvDrvDeviceDescriptor) (request : BitVec 32)
    (id : GuestSyncpointId) (increments : BitVec 32) (room : Bool) (hc : TimelinesValid c) :
    wp (reserveChannelSubmission d request id increments room)
      (.leaves (Quiet c)) c := by
  simp only [reserveChannelSubmission, wp_rules]
  refine ⟨fun _ ↦ ⟨.refl c, hc⟩, fun _ ↦ ?_⟩
  refine wp_of_wp (getTimeline_spec d id ioctlSyncptIncrement hc) ?_ ?_
  · rintro timeline c' ⟨⟨hsame, hc'⟩, htimeline⟩
    obtain ⟨hid, hvalid⟩ := hc' id timeline htimeline
    have hvalue {timeline' : GuestTimeline}
        (h : timeline'.currentPoint = timeline.currentPoint) :
        SameWaits c' (c'.setTimeline id timeline') := by
      refine .setTimeline fun v hv ↦ ?_
      rw [NvHostControl.value, htimeline, map_some, Option.some.injEq] at hv
      rw [h, hv]
    simp only [onTimeline, wp_focus, wp_mapErr]
    refine wp_of_wp (reserve_spec _ _ _ timeline) ?_ ?_
    · rintro _ _ ⟨-, hne, hwindow, rfl, rfl⟩
      exact ⟨hsame.trans (hvalue rfl), hc'.setTimeline hid (hvalid.push hne hwindow)⟩
    · rintro _ _ rfl
      exact ⟨hsame.trans (hvalue rfl), hc'.setTimeline hid hvalid⟩
  · rintro _ _ rfl
    exact ⟨.refl _, hc⟩

theorem allocateChannelSyncpoint_spec (d : NvDrvDeviceDescriptor) (request : BitVec 32)
    (hc : TimelinesValid c) :
    wp (allocateChannelSyncpoint d request)
      (.leaves (Quiet c)) c := by
  simp only [allocateChannelSyncpoint, wp_rules]
  refine ⟨fun id _ ↦ ?_, fun _ ↦ ⟨.refl c, hc⟩⟩
  refine wp_of_wp (allocateTimelineInstance_spec d request c) ?_ ?_
  · rintro instanceId c' ⟨hsame, htimelines, -⟩
    simp only
    -- A new timeline of the syncpoint goes on with the value of the old one.
    have hquiet : Quiet c { c'.setTimeline id (.new id instanceId (timelineOwner d)
        ((c.value id).getD 0)) with
          channelSyncpoints := c'.channelSyncpoints.insert id d.owner.processId } := by
      refine ⟨hsame.trans (SameWaits.trans (.setTimeline fun v hv ↦ ?_) ⟨rfl, rfl, rfl, rfl,
        fun _ _ h ↦ h⟩), ((hc.of_timelines htimelines).setTimeline rfl
          (valid_new _ _ _ _)).of_timelines rfl⟩
      rw [NvHostControl.value, htimelines] at hv
      rw [NvHostControl.value, hv, getD_some]
      simp [currentPoint, pointAt, GuestTimeline.new]
    exact ⟨fun _ _ ↦ hquiet, fun _ ↦ hquiet⟩
  · rintro _ _ rfl
    exact ⟨.refl _, hc⟩

theorem submissionDependencyReached_spec (d : NvDrvDeviceDescriptor) (syncpoint : BitVec 32)
    (value : SyncpointValue) (hc : TimelinesValid c) :
    wp (submissionDependencyReached d syncpoint value)
      (.leaves (Quiet c)) c := by
  simp only [submissionDependencyReached, wp_rules]
  refine ⟨fun id _ ↦ ?_, fun _ _ ↦ ⟨.refl c, hc⟩⟩
  refine wp_of_wp (getTimeline_spec d id ioctlSyncptRead hc) (fun _ _ h ↦ h.1) ?_
  rintro _ _ rfl
  exact ⟨.refl _, hc⟩

/-! ## Moves of a counter -/

/-- A method that moves the counter by less than half of its range, or leaves it alone. -/
def Moves {ε : Type} (m : Method ε GuestTimeline GuestTimelinePoint) (t : GuestTimeline) : Prop :=
  wp m ⟨fun p t' ↦ t'.syncpoint = t.syncpoint ∧ t'.Valid ∧ p = t'.currentPoint ∧
      (t'.currentPoint.value - t.currentPoint.value).toNat < 2 ^ 31,
    fun _ t' ↦ t' = t, False⟩ t

theorem moves_pop (ht : t.Valid) {completed : ReservedTimelinePoint}
    (hhead : t.reservations.head? = some completed) :
    ((t.pop completed).currentPoint.value - t.currentPoint.value).toNat < 2 ^ 31 := by
  obtain ⟨rest, hrest⟩ := List.head?_eq_some_iff.mp hhead
  have htiles := ht.tiles
  rw [hrest] at htiles
  obtain ⟨-, hposition, htiles⟩ := htiles
  have hle := htiles.le
  have hwindow := ht.window
  rw [outstandingIncrements] at hwindow
  simp only [currentPoint, pointAt, pop]
  rw [toNat_value_sub (by omega) (by omega), if_pos (by omega)]
  omega

theorem moves_advance (ht : t.Valid) (owner : TimelineOwnerId) (completed : ReservedTimelinePoint) :
    Moves (GuestTimeline.advance owner completed) t := by
  refine wp_of_ok (advance_spec owner completed t) ?_
  rintro _ _ ⟨-, -, hhead, rfl, rfl⟩
  exact ⟨rfl, ht.pop hhead, rfl, moves_pop ht hhead⟩

theorem moves_incrementImmediate (ht : t.Valid) (owner : TimelineOwnerId) (room : Bool) :
    Moves (GuestTimeline.incrementImmediate owner room) t := by
  refine wp_of_ok (incrementImmediate_spec owner room t) ?_
  rintro _ _ ⟨-, hempty, rfl, rfl⟩
  have hwindow : t.outstandingIncrements + (1 : BitVec 32).toNat ≤ maxOutstandingDistance := by
    rw [outstandingIncrements, ht.current_eq_reserved hempty, Nat.sub_self]
    decide
  have hpush := ht.push (by decide) hwindow
  have hhead : (t.push (t.nextPoint 1)).reservations.head? = some (t.nextPoint 1) := by
    rw [push, hempty, nil_append, List.head?_cons]
  exact ⟨rfl, hpush.pop hhead, rfl, moves_pop hpush hhead⟩

/-! ## The effects of the calls -/

namespace NvHostControl

/-- The counter of `id` moves on and the waits that it reaches are signalled. -/
def publish (c : NvHostControl) (id : GuestSyncpointId) (t t' : GuestTimeline) : NvHostControl :=
  ((c.setTimeline id t').recordProgress id t.currentPoint.value t'.currentPoint.value).signalReached
    id t'.currentPoint.value

/-- The target of a wait is not reached by the counter, which shows `current`. -/
def Ahead (c : NvHostControl) (target : GuestTimelinePoint) (current : SyncpointValue) : Prop :=
  c.value target.syncpoint = some current ∧ hasReached current target.value = false

end NvHostControl

open NvHostControl in
/-- What a call can do to the waits, and the point that it publishes. -/
inductive HostEffect (c : NvHostControl) :
    Option (GuestSyncpointId × SyncpointValue) → NvHostControl → Prop
  | nothing : HostEffect c none c
  | publish {id : GuestSyncpointId} {t t' : GuestTimeline} (ht : c.timelines[id]? = some t)
      (hid : t'.syncpoint = id) (hvalid : t'.Valid)
      (hjump : (t'.currentPoint.value - t.currentPoint.value).toNat < 2 ^ 31) :
      HostEffect c (some (id, t'.currentPoint.value)) (c.publish id t t')
  | endDirect (waiter : WaiterId) : HostEffect c none (c.removeDirectWait waiter)
  | startDirect {waiter : WaiterId} {wait : DirectWait} {current : SyncpointValue}
      (hnew : c.directWaits[waiter]? = none) (hevent : wait.event = c.signals.length)
      (hahead : c.Ahead wait.target current) :
      HostEffect c none
        ((c.newObject.insertDirectWait waiter wait).setGoal wait.event
          (c.goal wait.target current))
  | arm {fd : NvDrvFileDescriptor} {slot : Nat} {event : GpuSyncpointEvent}
      {target : GuestTimelinePoint} {current : SyncpointValue}
      (hevent : (c.events fd)[slot]? = some event) (hahead : c.Ahead target current) :
      HostEffect c none (c.arm fd event target current)
  | armNew {fd : NvDrvFileDescriptor} {slot : Nat} {target : GuestTimelinePoint}
      {current : SyncpointValue} (hslot : slot < eventSlotCount)
      (hfree : (c.events fd)[slot]? = none) (hid : target.syncpoint < syncpointCount)
      (hahead : c.Ahead target current) :
      HostEffect c none
        (((c.addEvent fd slot false).arm fd ⟨slot, c.signals.length, false, none⟩ target
          current).issue fd (encodeEventId target.syncpoint slot))
  | clearEvent {fd : NvDrvFileDescriptor} {slot : Nat} {event : GpuSyncpointEvent}
      (hevent : (c.events fd)[slot]? = some event) :
      HostEffect c none ((c.clearEvent fd event slot).retire fd (namesSlot slot))
  | allocEvent {fd : NvDrvFileDescriptor} {slot : Nat} (hfree : (c.events fd)[slot]? = none) :
      HostEffect c none (c.addEvent fd slot true)
  | freeEvent (fd : NvDrvFileDescriptor) (slot : Nat) :
      HostEffect c none
        ((c.setEvents fd ((c.events fd).erase slot)).retire fd (namesSlot slot))
  | openDevice {fd : NvDrvFileDescriptor} (hclosed : c.devices[fd]? = none) :
      HostEffect c none (c.setEvents fd ∅)
  | closeDevice (fd : NvDrvFileDescriptor) :
      HostEffect c none
        ((cancelWaits (fun wait ↦ wait.descriptor.fd = fd)
          { c with devices := c.devices.erase fd }).retire fd fun _ ↦ true)
  | clear :
      HostEffect c none
        { cancelWaits (fun _ ↦ true) c with
          timelines := ∅
          channelSyncpoints := ∅
          devices := ∅
          history := { (cancelWaits (fun _ ↦ true) c).history with issued := [] } }

/-- Timelines are made and reserved, and then the call does something to the waits. -/
def HostStep (c : NvHostControl) (published : Option (GuestSyncpointId × SyncpointValue))
    (d : NvHostControl) : Prop :=
  ∃ c', Quiet c c' ∧ HostEffect c' published d

theorem Quiet.step (h : Quiet c d) : HostStep c none d := ⟨d, h, .nothing⟩

theorem HostEffect.step (hc : TimelinesValid c)
    {published : Option (GuestSyncpointId × SyncpointValue)} (h : HostEffect c published d) :
    HostStep c published d := ⟨c, ⟨.refl c, hc⟩, h⟩

/-- What a call publishes: the point to which it has moved a counter. -/
def publishes (c : NvHostControl) : HostControlCall → Option (GuestSyncpointId × SyncpointValue)
  | .completeChannelSubmission d request completion =>
    match advanceChannel d request completion c with
    | .ok point _ => some (point.syncpoint, point.value)
    | _ => none
  | .ioctl d request input _ host =>
    if c.devices[d.fd]?.isSome ∧ request = ioctlSyncptIncrement then
      match incrementRequest d request input host.room c with
      | .ok (id, value) _ => some (id, value)
      | _ => none
    else none
  | _ => none

theorem moveCounter_spec {ε : Type} (d : NvDrvDeviceDescriptor) (request : BitVec 32)
    (id : GuestSyncpointId) {m : Method ε GuestTimeline GuestTimelinePoint}
    (hc : TimelinesValid c) (hm : ∀ t : GuestTimeline, t.Valid → Moves m t) :
    wp (moveCounter d request id m)
      ⟨fun p c' ↦ p.syncpoint = id ∧
          HostStep c (some (p.syncpoint, p.value)) (c'.signalReached p.syncpoint p.value),
        fun _ c' ↦ Quiet c c', False⟩ c := by
  simp only [moveCounter, wp_bind]
  refine wp_of_wp (getTimeline_spec d id ioctlSyncptIncrement hc) ?_ ?_
  · rintro t c' ⟨hquiet, ht⟩
    obtain ⟨hid, hvalid⟩ := hquiet.2 id t ht
    simp only [onTimeline, wp_focus, wp_mapErr]
    refine wp_of_wp (hm t hvalid) ?_ ?_
    · rintro _ t' ⟨hid', hvalid', rfl, hjump⟩
      have hpoint : t'.currentPoint.syncpoint = id := hid'.trans hid
      simp only [wp_rules, hpoint]
      exact ⟨trivial, c', hquiet, .publish ht (hid'.trans hid) hvalid' hjump⟩
    · rintro _ _ rfl
      refine ⟨hquiet.1.trans (.setTimeline fun v hv ↦ ?_), hquiet.2.setTimeline hid hvalid⟩
      rw [NvHostControl.value, ht, map_some, Option.some.injEq] at hv
      exact hv
  · rintro _ _ rfl
    exact ⟨.refl _, hc⟩

/-! ## Specifications of the requests -/

theorem lt_of_parseSyncpoint {value : Except NvDrvCallError (BitVec 32)} {id : GuestSyncpointId}
    (h : value >>= parseSyncpoint = .ok id) : id < syncpointCount := by
  cases value with
  | error e => exact nomatch h
  | ok value =>
    change parseSyncpoint value = .ok id at h
    rw [parseSyncpoint] at h
    split at h
    · rename_i hlt
      obtain rfl := Except.ok.inj h
      exact hlt
    · exact nomatch h

/-- A call that publishes nothing. -/
abbrev Silent (c : NvHostControl) {α : Type} : Post NvDrvCallError NvHostControl α :=
  (.leaves (HostStep c none))

section

variable {c : NvHostControl} (hc : TimelinesValid c) (d : NvDrvDeviceDescriptor)
  (request : BitVec 32) (input : List UInt8)

include hc

theorem step_self : HostStep c none c := HostEffect.nothing.step hc

theorem wp_lift_of {α β : Type} {r : Except NvDrvCallError α} {f : α → Call β}
    (h : ∀ a, r = .ok a → wp (f a) (Silent c) c) : wp (lift r >>= f) (Silent c) c :=
  (wp_bind _ _).mpr ((wp_lift r).mpr ⟨h, fun _ _ ↦ step_self hc⟩)

/-- Read a timeline, and go on from there. -/
theorem wp_getTimeline_of {α : Type} {id : GuestSyncpointId} {f : GuestTimeline → Call α}
    (h : ∀ t c', Quiet c c' → c'.value id = some t.currentPoint.value →
      wp (f t) (Silent c) c') :
    wp (getTimeline d id request >>= f) (Silent c) c := by
  rw [wp_bind]
  refine wp_of_wp (getTimeline_spec d id request hc) ?_ ?_
  · rintro t c' ⟨hquiet, ht⟩
    exact h t c' hquiet (by rw [NvHostControl.value, ht, map_some])
  · rintro _ _ rfl
    exact step_self hc

theorem waitDirect_step (waiter : WaiterId) (now : Nat) :
    wp (waitDirect d request input waiter now) (Silent c) c := by
  refine wp_lift_of hc fun id _ ↦ wp_lift_of hc fun threshold _ ↦ wp_lift_of hc fun timeout _ ↦
    wp_getTimeline_of hc d _ fun t c' hquiet hvalue ↦ ?_
  simp only [wp_ite, wp_bind, wp_update, wp_pure]
  have hend : HostStep c none (c'.removeDirectWait waiter) := ⟨c', hquiet, .endDirect waiter⟩
  refine ⟨fun _ ↦ hend, fun hreached ↦ ⟨fun _ ↦ hend, fun _ ↦ ?_⟩⟩
  simp only [wp_read]
  cases hwait : c'.directWaits[waiter]? with
  | some wait =>
    simp only [wp_rules, wp_ite]
    exact ⟨fun _ ↦ hquiet.step, fun _ ↦ ⟨fun _ ↦ hend, fun _ ↦ hquiet.step⟩⟩
  | none =>
    simp only [wp_rules]
    exact ⟨c', hquiet, .startDirect hwait rfl ⟨hvalue, Bool.not_eq_true _ ▸ hreached⟩⟩

theorem clearEventWait_step : wp (clearEventWait d request input) (Silent c) c := by
  simp only [clearEventWait, wp_rules]
  have hself := step_self hc
  exact ⟨fun _ _ ↦ ⟨fun slot _ ↦ ⟨fun _ ↦ hself, fun _ ↦
    ⟨fun event hevent ↦ (HostEffect.clearEvent hevent).step hc, fun _ ↦ hself⟩⟩,
      fun _ _ ↦ hself⟩, fun _ _ ↦ hself⟩

theorem allocEvent_step : wp (allocEvent d request input) (Silent c) c := by
  simp only [allocEvent, wp_rules, Bool.not_eq_true, isSome_eq_false_iff,
    isNone_iff_eq_none]
  have hself := step_self hc
  exact ⟨fun _ _ ↦ ⟨fun slot _ ↦ ⟨fun _ ↦ hself, fun _ ↦ ⟨fun _ ↦ hself,
    fun hfree ↦ (HostEffect.allocEvent hfree).step hc⟩⟩, fun _ _ ↦ hself⟩, fun _ _ ↦ hself⟩

theorem freeEvent_step : wp (freeEvent d request input) (Silent c) c := by
  simp only [freeEvent, wp_rules]
  have hself := step_self hc
  exact ⟨fun _ _ ↦ ⟨fun slot _ ↦ ⟨fun _ ↦ hself, fun _ ↦ ⟨fun _ ↦ hself,
    fun _ ↦ (HostEffect.freeEvent d.fd slot).step hc⟩⟩, fun _ _ ↦ hself⟩, fun _ _ ↦ hself⟩

end

theorem writeU32_sizedOutput (input : List UInt8) (value : BitVec 32) (e : NvDrvCallError) :
    writeU32 (sizedOutput input 16) 12 value ≠ .error e := by
  have hlength : (sizedOutput input 16).length = 16 := by
    simp only [sizedOutput, length_append, length_take, length_replicate]
    omega
  rw [writeU32, hlength]
  exact nofun

theorem freeSlot_eq_some {events : ExtTreeMap Nat GpuSyncpointEvent} {slot : Nat}
    (h : freeSlot events = some slot) : slot < eventSlotCount ∧ events[slot]? = none := by
  have hfree := List.find?_some h
  rw [Bool.not_eq_true', ← Bool.not_eq_true, ← ExtTreeMap.mem_iff_contains] at hfree
  exact ⟨mem_range.mp (mem_of_find?_eq_some h), ExtTreeMap.getElem?_eq_none hfree⟩

section

variable {c : NvHostControl} (hc : TimelinesValid c) (d : NvDrvDeviceDescriptor)
  (request : BitVec 32) (input : List UInt8)

include hc

/-- The part of an event wait that is not about the slot. -/
theorem waitEvent_step {kind : WaitKind} {requestedSlot : Option Nat}
    (hkind : kind = .allocateEvent ↔ requestedSlot = none) :
    wp (waitEvent d request input kind requestedSlot) (Silent c) c := by
  refine wp_lift_of hc fun id hid ↦ wp_lift_of hc fun threshold _ ↦ wp_lift_of hc fun timeout _ ↦
    wp_getTimeline_of hc d _ fun t c' hquiet hvalue ↦ ?_
  simp only [wp_ite, wp_rules]
  refine ⟨fun _ ↦ ⟨fun _ _ ↦ hquiet.step, fun _ _ ↦ hquiet.step⟩, fun hreached ↦
    ⟨fun _ ↦ hquiet.step, fun _ ↦ ⟨fun _ ↦ hquiet.step, fun _ ↦ ?_⟩⟩⟩
  have hahead : c'.Ahead ⟨id, threshold⟩ t.currentPoint.value :=
    ⟨hvalue, Bool.not_eq_true _ ▸ hreached⟩
  cases requestedSlot with
  | some slot =>
    have hregistered : kind ≠ .allocateEvent := fun h ↦ by cases hkind.mp h
    simp only [waitSlot, wp_rules, hregistered]
    exact ⟨fun event hevent ↦ ⟨by simp, fun _ ↦ ⟨c', hquiet, .arm hevent hahead⟩⟩,
      fun _ ↦ hquiet.step⟩
  | none =>
    have hallocate : kind = .allocateEvent := hkind.mpr rfl
    simp only [waitSlot, wp_rules, hallocate]
    refine ⟨fun slot hfree ↦ ?_, fun _ ↦ hquiet.step⟩
    obtain ⟨hslot, hfree⟩ := freeSlot_eq_some hfree
    rw [NvHostControl.getElem?_events_addEvent]
    refine ⟨?_, by simp⟩
    rintro _ ⟨⟩
    refine ⟨fun _ ↦ ⟨fun _ _ ↦ ?_, fun e he ↦ absurd he (writeU32_sizedOutput _ _ e)⟩,
      fun h ↦ absurd trivial h⟩
    exact ⟨c', hquiet, .armNew hslot hfree (lt_of_parseSyncpoint hid) hahead⟩

end

/-! ## The step -/

theorem incrementRequest_spec (d : NvDrvDeviceDescriptor) (request : BitVec 32)
    (input : List UInt8) (room : Bool) (hc : TimelinesValid c) :
    wp (incrementRequest d request input room)
      ⟨fun p c' ↦ HostStep c (some p) (c'.signalReached p.1 p.2), fun _ c' ↦ Quiet c c', False⟩
      c := by
  simp only [incrementRequest, incrementCounter, wp_rules]
  refine ⟨fun _ _ ↦ ⟨fun id _ ↦ ?_, fun _ _ ↦ ⟨.refl c, hc⟩⟩, fun _ _ ↦ ⟨.refl c, hc⟩⟩
  refine wp_of_ok (moveCounter_spec d request id hc fun t ht ↦ moves_incrementImmediate ht _ room)
    ?_
  rintro point c' ⟨rfl, hstep⟩
  exact hstep

section

variable {c : NvHostControl} (hc : TimelinesValid c)

include hc

theorem completeChannelSubmission_step (d : NvDrvDeviceDescriptor) (request : BitVec 32)
    (completion : ReservedTimelinePoint) :
    wp (completeChannelSubmission d request completion)
      (.leaves (HostStep c (publishes c (.completeChannelSubmission d request completion)))) c := by
  simp only [completeChannelSubmission, wp_rules]
  refine wp_mono (wp_and (moveCounter_spec d request completion.point.syncpoint hc
    fun t ht ↦ moves_advance ht (timelineOwner d) completion)
    (wp_outcome (advanceChannel d request completion) c)) ?_ ?_ fun h ↦ h.1
  · rintro point c' ⟨⟨-, hstep⟩, houtcome⟩
    rw [publishes, houtcome]
    exact hstep
  · rintro e c' ⟨hquiet, houtcome⟩
    rw [publishes, houtcome]
    exact hquiet.step

theorem ioctlForWaiter_step (d : NvDrvDeviceDescriptor) (request : BitVec 32)
    (input : List UInt8) (waiter : WaiterId) (host : HostInput) :
    wp (ioctlForWaiter d request input waiter host)
      (.leaves (HostStep c (publishes c (.ioctl d request input waiter host)))) c := by
  rw [ioctlForWaiter]
  simp only [wp_rules]
  refine ⟨fun hclosed ↦ ?_, fun hopen ↦ ?_⟩
  · have hnone : publishes c (.ioctl d request input waiter host) = none :=
      if_neg fun h ↦ Bool.false_ne_true (hclosed ▸ h.1)
    rw [hnone]
    exact step_self hc
  by_cases hincrement : request = ioctlSyncptIncrement
  · have hopen : c.devices[d.fd]?.isSome = true := Bool.not_eq_false _ ▸ hopen
    have hpublishes : publishes c (.ioctl d request input waiter host) =
        match incrementRequest d request input host.room c with
        | .ok (id, value) _ => some (id, value)
        | _ => none := if_pos ⟨hopen, hincrement⟩
    have hread : request ≠ ioctlSyncptRead := by
      rw [hincrement]
      decide
    rw [hpublishes, if_neg hread, if_pos hincrement, wp_bind]
    refine wp_mono (wp_and (incrementRequest_spec d request input host.room hc)
      (wp_outcome (incrementRequest d request input host.room) c)) ?_ ?_ fun h ↦ h.1
    · rintro ⟨id, value⟩ c' ⟨hstep, houtcome⟩
      rw [houtcome]
      exact hstep
    · rintro e c' ⟨hquiet, houtcome⟩
      rw [houtcome]
      exact hquiet.step
  · have hnone : publishes c (.ioctl d request input waiter host) = none :=
      if_neg fun h ↦ hincrement h.2
    rw [hnone]
    simp only [wp_ite, hincrement, wp_fail]
    refine ⟨fun _ ↦ ?_, fun _ ↦ ⟨by simp, fun _ ↦ ⟨fun _ ↦ ?_, fun _ ↦
      ⟨fun _ ↦ clearEventWait_step hc d request input, fun _ ↦ ⟨fun _ ↦ ?_, fun _ ↦
        ⟨fun _ ↦ ?_, fun _ ↦ ⟨fun _ ↦ allocEvent_step hc d request input, fun _ ↦
          ⟨fun _ ↦ freeEvent_step hc d request input, fun _ ↦ step_self hc⟩⟩⟩⟩⟩⟩⟩⟩
    · -- `IOCTL_SYNCPT_READ`
      refine wp_lift_of hc fun _ _ ↦ wp_lift_of hc fun id _ ↦
        wp_getTimeline_of hc d _ fun t c' hquiet _ ↦ ?_
      simp only [wp_rules]
      exact ⟨fun _ _ ↦ hquiet.step, fun _ _ ↦ hquiet.step⟩
    · exact wp_lift_of hc fun _ _ ↦ waitDirect_step hc d request input waiter host.now
    · exact wp_lift_of hc fun _ _ ↦ waitEvent_step hc d request input (iff_of_true rfl rfl)
    · -- `IOCTL_SYNCPT_WAIT_EVENT_EX`
      refine wp_lift_of hc fun _ _ ↦ wp_lift_of hc fun slot _ ↦ ?_
      simp only [wp_rules]
      exact ⟨fun _ ↦ step_self hc, fun _ ↦
        waitEvent_step hc d request input (iff_of_false (by simp) (by simp))⟩

/-- **The step.** What a call does to the waits, whether it succeeds or fails. -/
theorem run_step (call : HostControlCall) :
    wp call.run
      ⟨fun _ c' ↦ HostStep c (publishes c call) c', fun _ c' ↦ HostStep c (publishes c call) c',
        True⟩ c := by
  have hquiet {α : Type} {m : Call α} {f : α → HostControlAnswer}
      (h : wp m (.leaves (Quiet c)) c) :
      wp (m >>= fun a ↦ pure (f a))
        ⟨fun _ c' ↦ HostStep c none c', fun _ c' ↦ HostStep c none c', True⟩ c :=
    (wp_bind _ _).mpr (wp_of_wp h (fun _ _ ↦ Quiet.step) (fun _ _ ↦ Quiet.step))
  cases call with
  | openDevice fd =>
    simp only [HostControlCall.run, openDevice, wp_rules, wp_assert]
    refine ⟨fun hnew ↦ ?_, fun _ ↦ trivial⟩
    rw [Bool.not_eq_true', isSome_eq_false_iff, isNone_iff_eq_none] at hnew
    exact (HostEffect.openDevice hnew).step hc
  | closeDevice fd => exact (HostEffect.closeDevice fd).step hc
  | clear => exact HostEffect.clear.step hc
  | allocateChannelSyncpoint d request => exact hquiet (allocateChannelSyncpoint_spec d request hc)
  | releaseChannelSyncpoint id =>
    exact Quiet.step ⟨⟨rfl, rfl, rfl, rfl, fun _ _ h ↦ h⟩, hc.of_timelines rfl⟩
  | submissionDependencyReached d syncpoint value =>
    exact hquiet (submissionDependencyReached_spec d syncpoint value hc)
  | reserveChannelSubmission d request id increments room =>
    exact hquiet (reserveChannelSubmission_spec d request id increments room hc)
  | completeChannelSubmission d request completion =>
    exact (wp_bind _ _).mpr
      (wp_of_ok (completeChannelSubmission_step hc d request completion) fun _ _ h ↦ h)
  | ioctl d request input waiter host =>
    exact (wp_bind _ _).mpr
      (wp_of_ok (ioctlForWaiter_step hc d request input waiter host) fun _ _ h ↦ h)
  | queryEvent d eventId =>
    have hself := step_self hc
    simp only [HostControlCall.run, queryEvent, wp_rules, wp_assert]
    exact ⟨fun _ _ ↦ ⟨fun _ _ ↦ ⟨fun _ ↦ hself, fun _ ↦ trivial⟩, fun _ ↦ hself⟩,
      fun _ _ ↦ hself⟩

end

end Nixe.Nvdrv
