import Nixe.Collections.Ordered
import Nixe.Gpu.Timeline
import Nixe.Nvdrv.Ioctl

/-!
# Syncpoints and their events

`nvhost_ctrl.rs`: the syncpoint timelines of a process, the threads that wait for one of them and
the event slots that are signalled by one. A mutex makes every call one step.

An event object is shared between the tables and whoever holds a handle to it, so the objects are
kept by number in a list of their own, which says whether they are signalled.
-/

namespace Nixe.Nvdrv

open Std Gpu Method

def syncpointCount : Nat := 192

def eventSlotCount : Nat := 64

def modernEventValid : BitVec 32 := 1 <<< 28

/-! ## State -/

/-- `NvHostCtrlWaiterId` -/
structure WaiterId where
  processId : Nat
  threadId : Nat
  deriving DecidableEq, Repr

instance : Ord WaiterId where
  compare := compareLex (compareOn WaiterId.processId) (compareOn WaiterId.threadId)

instance : TransOrd WaiterId :=
  inferInstanceAs (TransCmp (compareLex (compareOn WaiterId.processId)
    (compareOn WaiterId.threadId)))

instance : LawfulEqOrd WaiterId where
  eq_of_compare h := by
    refine eq_of_compareLex (fun a b hp ht ↦ ?_) h
    cases a
    cases b
    simp_all

/-- `event` is the number of the event object. -/
structure GpuSyncpointEvent where
  slot : Nat
  event : Nat
  registered : Bool
  armed : Option GuestTimelinePoint
  deriving DecidableEq, Repr

structure NvHostCtrlDevice where
  events : ExtTreeMap Nat GpuSyncpointEvent

structure DirectWait where
  descriptor : NvDrvDeviceDescriptor
  target : GuestTimelinePoint
  deadline : Option Nat
  event : Nat
  deriving DecidableEq, Repr

/-- What has happened so far, for the statements about the calls; no call reads it. -/
structure WaitHistory where
  /-- The increments of every syncpoint. -/
  progress : GuestSyncpointId → Nat
  /-- The syncpoint that an event object was last made to wait for, and the number of increments
  at which the wait ends. -/
  goals : Nat → GuestSyncpointId × Nat
  /-- The event ids that the guest was given and has neither cleared nor freed. -/
  issued : List (NvDrvFileDescriptor × BitVec 32)
  /-- The event objects of waits that were cancelled with their descriptor. -/
  cancelled : List Nat

structure NvHostControl where
  timelines : ExtTreeMap GuestSyncpointId GuestTimeline
  channelSyncpoints : ExtTreeMap GuestSyncpointId Nat
  devices : ExtTreeMap NvDrvFileDescriptor NvHostCtrlDevice
  directWaits : ExtTreeMap WaiterId DirectWait
  nextTimelineInstance : Nat
  /-- Whether the event objects are signalled. -/
  signals : List Bool
  history : WaitHistory

/-- `NvHostControl::default` -/
def NvHostControl.new : NvHostControl :=
  ⟨∅, ∅, ∅, ∅, 1, [], ⟨fun _ ↦ 0, fun _ ↦ (0, 0), [], []⟩⟩

abbrev Call := Method NvDrvCallError NvHostControl

/-! ## Updates of the state -/

namespace NvHostControl

variable (c : NvHostControl)

/-- The value that the counter of a syncpoint shows. -/
def value (id : GuestSyncpointId) : Option SyncpointValue :=
  c.timelines[id]?.map fun timeline ↦ timeline.currentPoint.value

def setTimeline (id : GuestSyncpointId) (timeline : GuestTimeline) : NvHostControl :=
  { c with timelines := c.timelines.insert id timeline }

def setEvents (fd : NvDrvFileDescriptor) (events : ExtTreeMap Nat GpuSyncpointEvent) :
    NvHostControl :=
  { c with devices := c.devices.insert fd ⟨events⟩ }

/-- The events of an open descriptor. -/
def events (fd : NvDrvFileDescriptor) : ExtTreeMap Nat GpuSyncpointEvent :=
  (c.devices[fd]?.map NvHostCtrlDevice.events).getD ∅

def removeDirectWait (waiter : WaiterId) : NvHostControl :=
  { c with directWaits := c.directWaits.erase waiter }

/-- The goal of a wait for `target` that starts at the counter value `current`. -/
def goal (target : GuestTimelinePoint) (current : SyncpointValue) : GuestSyncpointId × Nat :=
  (target.syncpoint, c.history.progress target.syncpoint + (target.value - current).toNat)

def setGoal (event : Nat) (goal : GuestSyncpointId × Nat) : NvHostControl :=
  { c with history := { c.history with goals := Function.update c.history.goals event goal } }

/-- A new event object, which is not signalled. -/
def newObject : NvHostControl := { c with signals := c.signals ++ [false] }

def insertDirectWait (waiter : WaiterId) (wait : DirectWait) : NvHostControl :=
  { c with directWaits := c.directWaits.insert waiter wait }

/-- Forget the event ids of `fd` that name one of the slots. -/
def retire (fd : NvDrvFileDescriptor) (names : BitVec 32 → Bool) : NvHostControl :=
  { c with
    history := { c.history with
      issued := c.history.issued.filter fun entry ↦ !(entry.1 = fd && names entry.2) } }

def issue (fd : NvDrvFileDescriptor) (eventId : BitVec 32) : NvHostControl :=
  { c with history := { c.history with issued := (fd, eventId) :: c.history.issued } }

/-- The counter of `id` went from one value to another. -/
def recordProgress (id : GuestSyncpointId) (before after : SyncpointValue) : NvHostControl :=
  { c with
    history := { c.history with
      progress := Function.update c.history.progress id
        (c.history.progress id + (after - before).toNat) } }

end NvHostControl

/-! ## Signals -/

/-- Signal the event objects of a list. -/
def signalObjects (signals : List Bool) (objects : List Nat) : List Bool :=
  objects.foldl (fun signals object ↦ signals.set object true) signals

def targetReached (target : GuestTimelinePoint) (id : GuestSyncpointId) (value : SyncpointValue) :
    Bool :=
  target.syncpoint = id && hasReached value target.value

def GpuSyncpointEvent.reachedBy (event : GpuSyncpointEvent) (id : GuestSyncpointId)
    (value : SyncpointValue) : Bool :=
  event.armed.any fun target ↦ targetReached target id value

namespace NvHostControl

/-- The event objects that `signal_reached` signals. -/
def reachedObjects (c : NvHostControl) (id : GuestSyncpointId) (value : SyncpointValue) :
    List Nat :=
  (c.directWaits.toList.filter fun entry ↦ targetReached entry.2.target id value).map
      (fun entry ↦ entry.2.event) ++
    c.devices.toList.flatMap fun device ↦
      (device.2.events.toList.filter fun entry ↦ entry.2.reachedBy id value).map
        fun entry ↦ entry.2.event

/-- What `signal_reached` retains of an event: one that was not registered is removed. -/
def retained (id : GuestSyncpointId) (value : SyncpointValue) (event : GpuSyncpointEvent) :
    Option GpuSyncpointEvent :=
  if event.reachedBy id value then
    if event.registered then some { event with armed := none } else none
  else some event

def signalReached (c : NvHostControl) (id : GuestSyncpointId) (value : SyncpointValue) :
    NvHostControl :=
  { c with
    signals := signalObjects c.signals (c.reachedObjects id value)
    devices := c.devices.map fun _ device ↦
      ⟨device.events.filterMap fun _ event ↦ retained id value event⟩ }

end NvHostControl

/-! ## Identities and timelines -/

def parseSyncpoint (value : BitVec 32) : Except NvDrvCallError GuestSyncpointId :=
  if value.toNat < syncpointCount then .ok value.toNat else .error (.guestResult nvBadParameter)

/-- `GpuSyncpointEventSlot::parse` -/
def parseSlot (value : BitVec 32) : Except NvDrvCallError Nat :=
  if value.toNat < eventSlotCount then .ok value.toNat else .error (.guestResult nvBadParameter)

/-- `decode_query_event_slot`: the modern encoding, or the one with the slot in four bits. -/
def decodeQueryEventSlot (eventId : BitVec 32) : Except NvDrvCallError Nat := do
  if eventId &&& modernEventValid ≠ 0 then
    if eventId &&& 0xe000ffc0 ≠ 0 then .error (.guestResult nvBadParameter)
    else
      let _ ← parseSyncpoint ((eventId >>> 16) &&& 0x0fff)
      parseSlot (eventId &&& 0x3f)
  else
    let _ ← parseSyncpoint (eventId >>> 4)
    parseSlot (eventId &&& 0x0f)

/-- The event id that an asynchronous wait returns. -/
def encodeEventId (id : GuestSyncpointId) (slot : Nat) : BitVec 32 :=
  modernEventValid ||| ((BitVec.ofNat 32 id &&& 0x0fff) <<< 16) ||| BitVec.ofNat 32 slot

variable (d : NvDrvDeviceDescriptor) (request : BitVec 32)

def timelineOwner : TimelineOwnerId := d.owner.processId

def errorContext (reason : NvDrvValidationReason) : NvDrvCallError :=
  .unsupported ⟨d.kind, request, d.fd, reason⟩

def ioctlSyncptRead : BitVec 32 := 0xc0080014
def ioctlSyncptIncrement : BitVec 32 := 0xc0040015
def ioctlSyncptWait : BitVec 32 := 0xc00c0016
def ioctlSyncptClearEventWait : BitVec 32 := 0xc004001c
def ioctlSyncptWaitEvent : BitVec 32 := 0xc010001d
def ioctlSyncptWaitEventEx : BitVec 32 := 0xc010001e
def ioctlSyncptAllocEvent : BitVec 32 := 0xc004001f
def ioctlSyncptFreeEvent : BitVec 32 := 0xc0040020

def allocateTimelineInstance : Call TimelineInstanceId := do
  let instanceId ← read NvHostControl.nextTimelineInstance
  let next ← okOr (checkedAdd instanceId 1) (errorContext d request .timelineIdentityExhausted)
  update fun c ↦ { c with nextTimelineInstance := next }
  return instanceId

def ensureTimeline (id : GuestSyncpointId) : Call Unit := do
  let present ← read fun c ↦ c.timelines[id]?.isSome
  if present then return ()
  else
    let instanceId ← allocateTimelineInstance d ioctlSyncptRead
    update fun c ↦ c.setTimeline id (.new id instanceId (timelineOwner d) 0)

/-- `timeline` and `timeline_mut`, which differ in the request of an error. -/
def getTimeline (id : GuestSyncpointId) (request : BitVec 32) : Call GuestTimeline := do
  ensureTimeline d id
  let timeline ← read fun c ↦ c.timelines[id]?
  okOr timeline (errorContext d request .deviceStateUnavailable)

/-! ## Channels -/

/-- `open`: the descriptor is new. -/
def openDevice (fd : NvDrvFileDescriptor) : Call Unit := do
  let previous ← read fun c ↦ c.devices[fd]?.isSome
  update fun c ↦ c.setEvents fd ∅
  assert (!previous) "assertion failed: previous.is_none()"

/-- Cancel the direct waits that satisfy `p`. -/
def cancelWaits (p : DirectWait → Bool) (c : NvHostControl) : NvHostControl :=
  let objects := (c.directWaits.toList.filter fun entry ↦ p entry.2).map fun entry ↦ entry.2.event
  { c with
    directWaits := c.directWaits.filter fun _ wait ↦ !p wait
    signals := signalObjects c.signals objects
    history := { c.history with cancelled := objects ++ c.history.cancelled } }

/-- `close` -/
def closeDevice (fd : NvDrvFileDescriptor) : Call Unit :=
  update fun c ↦
    (cancelWaits (fun wait ↦ wait.descriptor.fd = fd)
      { c with devices := c.devices.erase fd }).retire fd fun _ ↦ true

/-- `clear` -/
def clearDevices : Call Unit :=
  update fun c ↦
    let c := cancelWaits (fun _ ↦ true) c
    { c with
      timelines := ∅
      channelSyncpoints := ∅
      devices := ∅
      history := { c.history with issued := [] } }

def allocateChannelSyncpoint : Call GuestTimelinePoint := do
  let free ← read fun c ↦
    (List.range' 1 (syncpointCount - 1)).find? fun id ↦ !c.channelSyncpoints.contains id
  let id ← okOr free (errorContext d request .timelineIdentityExhausted)
  let initialValue ← read fun c ↦ (c.value id).getD 0
  let instanceId ← allocateTimelineInstance d request
  update fun c ↦ c.setTimeline id (.new id instanceId (timelineOwner d) initialValue)
  update fun c ↦
    { c with channelSyncpoints := c.channelSyncpoints.insert id d.owner.processId }
  let timeline ← read fun c ↦ c.timelines[id]?
  let timeline ← okOr timeline (errorContext d request .deviceStateUnavailable)
  return timeline.currentPoint

def releaseChannelSyncpoint (id : GuestSyncpointId) : Call Unit :=
  update fun c ↦ { c with channelSyncpoints := c.channelSyncpoints.erase id }

def submissionDependencyReached (syncpoint : BitVec 32) (value : SyncpointValue) : Call Bool := do
  let id ← lift (parseSyncpoint syncpoint)
  let timeline ← getTimeline d id ioctlSyncptRead
  return timeline.reached value

/-- A method of the timeline of `id`, which exists. -/
def onTimeline {ε α : Type} (id : GuestSyncpointId) (timeline : GuestTimeline)
    (m : Method ε GuestTimeline α) (error : NvDrvCallError) : Call α :=
  focus (fun _ ↦ timeline) (fun c timeline ↦ c.setTimeline id timeline) (mapErr (fun _ ↦ error) m)

def reserveChannelSubmission (id : GuestSyncpointId) (increments : BitVec 32) (room : Bool) :
    Call ReservedTimelinePoint := do
  let process ← read fun c ↦ c.channelSyncpoints[id]?
  failIf (process ≠ some d.owner.processId) (.guestResult nvInvalidState)
  let timeline ← getTimeline d id ioctlSyncptIncrement
  onTimeline id timeline (GuestTimeline.reserve (timelineOwner d) increments room)
    (errorContext d request .timelineOrderingUnavailable)

/-- The part of a call that moves a counter, before the waits are signalled. -/
def moveCounter {ε : Type} (d : NvDrvDeviceDescriptor) (request : BitVec 32)
    (id : GuestSyncpointId) (m : Method ε GuestTimeline GuestTimelinePoint) :
    Call GuestTimelinePoint := do
  let timeline ← getTimeline d id ioctlSyncptIncrement
  let point ← onTimeline id timeline m (errorContext d request .timelineOrderingUnavailable)
  update fun c ↦ c.recordProgress id timeline.currentPoint.value point.value
  return point

def advanceChannel (completion : ReservedTimelinePoint) : Call GuestTimelinePoint :=
  moveCounter d request completion.point.syncpoint
    (GuestTimeline.advance (timelineOwner d) completion)

def completeChannelSubmission (completion : ReservedTimelinePoint) : Call GuestTimelinePoint := do
  let point ← advanceChannel d request completion
  update fun c ↦ c.signalReached point.syncpoint point.value
  return point

/-! ## Waits -/

inductive WaitKind where
  | direct
  | allocateEvent
  | registeredEvent
  deriving DecidableEq, Repr

structure PendingNvHostCtrlWait where
  request : BitVec 32
  target : GuestTimelinePoint
  timeoutMicroseconds : Int
  kind : WaitKind
  eventSlot : Option Nat
  wakeEvent : Nat
  deadline : Option Nat
  deriving DecidableEq, Repr

inductive IoctlOutcome where
  | complete (output : List UInt8)
  | driverResult (output : List UInt8) (driverResult : Nat)
  | pending (wait : PendingNvHostCtrlWait)
  deriving DecidableEq, Repr

/-- The answer to a direct wait that is in the table. -/
def pendingDirect (request : BitVec 32) (timeout : Int) (wait : DirectWait) : IoctlOutcome :=
  .pending
    { request, target := wait.target, timeoutMicroseconds := timeout, kind := .direct
      eventSlot := none, wakeEvent := wait.event, deadline := wait.deadline }

/-- `u64::try_from(timeout).ok().and_then(|timeout| Instant::now().checked_add(..))` -/
def waitDeadline (now : Nat) (timeout : Int) : Option Nat :=
  if timeout < 0 then none else checkedAdd now timeout.toNat

/-- `wait_direct` at the instant `now`, for an input of twelve bytes. -/
def waitDirect (input : List UInt8) (waiter : WaiterId) (now : Nat) : Call IoctlOutcome := do
  let id ← lift (inputU32 input 0 >>= parseSyncpoint)
  let threshold ← lift (inputU32 input 4)
  let timeout := (← lift (inputU32 input 8)).toInt
  let target : GuestTimelinePoint := ⟨id, threshold⟩
  let timeline ← getTimeline d id ioctlSyncptRead
  if timeline.reached threshold then
    update fun c ↦ c.removeDirectWait waiter
    return .complete (sizedOutput input 12)
  else if timeout = 0 then
    update fun c ↦ c.removeDirectWait waiter
    return .driverResult (sizedOutput input 12) nvTimeout
  else
    match ← read fun c ↦ c.directWaits[waiter]? with
    | some wait =>
      failIf (wait.descriptor ≠ d ∨ wait.target ≠ target)
        (errorContext d request .deviceStateUnavailable)
      if wait.deadline.any (· ≤ now) then
        update fun c ↦ c.removeDirectWait waiter
        return .driverResult (sizedOutput input 12) nvTimeout
      else return pendingDirect request timeout wait
    | none =>
      let event ← read fun c ↦ c.signals.length
      let wait : DirectWait := ⟨d, target, waitDeadline now timeout, event⟩
      update fun c ↦
        ((c.newObject).insertDirectWait waiter wait).setGoal event
          (c.goal target timeline.currentPoint.value)
      return pendingDirect request timeout wait

/-- A slot for an event that nobody registered. -/
def freeSlot (events : ExtTreeMap Nat GpuSyncpointEvent) : Option Nat :=
  (List.range eventSlotCount).find? fun slot ↦ !events.contains slot

/-- Put a new event into a slot of an open descriptor. -/
def NvHostControl.addEvent (c : NvHostControl) (fd : NvDrvFileDescriptor) (slot : Nat)
    (registered : Bool) : NvHostControl :=
  c.newObject.setEvents fd ((c.events fd).insert slot ⟨slot, c.signals.length, registered, none⟩)

/-- Arm an event, which is then not signalled. -/
def NvHostControl.arm (c : NvHostControl) (fd : NvDrvFileDescriptor) (event : GpuSyncpointEvent)
    (target : GuestTimelinePoint) (current : SyncpointValue) : NvHostControl :=
  (({ c with signals := c.signals.set event.event false }).setEvents fd
    ((c.events fd).insert event.slot { event with armed := some target })).setGoal event.event
      (c.goal target current)

/-- The slot of an event wait; a wait without one takes a free slot. -/
def waitSlot (fd : NvDrvFileDescriptor) (requestedSlot : Option Nat) : Call Nat :=
  match requestedSlot with
  | some slot => pure slot
  | none => do
    let free ← read fun c ↦ freeSlot (c.events fd)
    let slot ← okOr free (.guestResult nvInvalidState)
    update fun c ↦ c.addEvent fd slot false
    return slot

/-- `wait_event`, for an input of sixteen bytes. -/
def waitEvent (input : List UInt8) (kind : WaitKind) (requestedSlot : Option Nat) :
    Call IoctlOutcome := do
  let id ← lift (inputU32 input 0 >>= parseSyncpoint)
  let threshold ← lift (inputU32 input 4)
  let timeout := (← lift (inputU32 input 8)).toInt
  let timeline ← getTimeline d id ioctlSyncptRead
  let current := timeline.currentPoint.value
  if hasReached current threshold then
    return .complete (← lift (writeU32 (sizedOutput input 16) 12 current))
  else if timeout = 0 then return .driverResult (sizedOutput input 16) nvTimeout
  else
    let present ← read fun c ↦ c.devices[d.fd]?.isSome
    failIf (present = false) (errorContext d request .deviceStateUnavailable)
    let slot ← waitSlot d.fd requestedSlot
    let event ← read fun c ↦ (c.events d.fd)[slot]?
    let event ← okOr event (.guestResult nvBadParameter)
    update fun c ↦ c.arm d.fd event ⟨id, threshold⟩ current
    if kind = .allocateEvent then
      let output ← lift (writeU32 (sizedOutput input 16) 12 (encodeEventId id slot))
      update fun c ↦ c.issue d.fd (encodeEventId id slot)
      return .driverResult output nvTimeout
    else return .driverResult (sizedOutput input 16) nvTimeout

/-- The event ids that name `slot`. -/
def namesSlot (slot : Nat) (eventId : BitVec 32) : Bool :=
  match decodeQueryEventSlot eventId with
  | .ok named => named = slot
  | .error _ => false

/-- The event of `slot` is neither armed nor signalled any more, and gone if nobody registered
it. -/
def NvHostControl.clearEvent (c : NvHostControl) (fd : NvDrvFileDescriptor)
    (event : GpuSyncpointEvent) (slot : Nat) : NvHostControl :=
  let events := c.events fd
  ({ c with signals := c.signals.set event.event false }).setEvents fd
    (if event.registered then events.insert slot { event with armed := none }
      else events.erase slot)

/-- `clear_event_wait` -/
def clearEventWait (input : List UInt8) : Call IoctlOutcome := do
  lift (requireInputSize input 4)
  let slot ← lift (inputU32 input 0 >>= decodeQueryEventSlot)
  let present ← read fun c ↦ c.devices[d.fd]?.isSome
  failIf (present = false) (errorContext d request .deviceStateUnavailable)
  let event ← read fun c ↦ (c.events d.fd)[slot]?
  let event ← okOr event (.guestResult nvBadParameter)
  update fun c ↦ (c.clearEvent d.fd event slot).retire d.fd (namesSlot slot)
  return .complete (sizedOutput input 4)

/-- `IOCTL_SYNCPT_ALLOC_EVENT` -/
def allocEvent (input : List UInt8) : Call IoctlOutcome := do
  lift (requireInputSize input 4)
  let slot ← lift (inputU32 input 0 >>= parseSlot)
  let present ← read fun c ↦ c.devices[d.fd]?.isSome
  failIf (present = false) (errorContext d request .deviceStateUnavailable)
  let occupied ← read fun c ↦ (c.events d.fd)[slot]?.isSome
  failIf (occupied = true) (.guestResult nvInvalidState)
  update fun c ↦ c.addEvent d.fd slot true
  return .complete (sizedOutput input 4)

/-- `IOCTL_SYNCPT_FREE_EVENT` -/
def freeEvent (input : List UInt8) : Call IoctlOutcome := do
  lift (requireInputSize input 4)
  let slot ← lift (inputU32 input 0 >>= parseSlot)
  let present ← read fun c ↦ c.devices[d.fd]?.isSome
  failIf (present = false) (errorContext d request .deviceStateUnavailable)
  let occupied ← read fun c ↦ (c.events d.fd)[slot]?.isSome
  failIf (occupied = false) (.guestResult nvBadParameter)
  update fun c ↦ (c.setEvents d.fd ((c.events d.fd).erase slot)).retire d.fd (namesSlot slot)
  return .complete (sizedOutput input 4)

/-! ## Requests -/

/-- What the host contributes to a request: the time, and whether a queue can grow. -/
structure HostInput where
  now : Nat
  room : Bool
  deriving DecidableEq, Repr

def incrementCounter (id : GuestSyncpointId) (room : Bool) : Call GuestTimelinePoint :=
  moveCounter d request id (GuestTimeline.incrementImmediate (timelineOwner d) room)

/-- The part of `IOCTL_SYNCPT_INCREMENT` before the waits are signalled. -/
def incrementRequest (input : List UInt8) (room : Bool) :
    Call (GuestSyncpointId × SyncpointValue) := do
  lift (requireInputSize input 4)
  let id ← lift (inputU32 input 0 >>= parseSyncpoint)
  let point ← incrementCounter d request id room
  return (id, point.value)

/-- `ioctl_for_waiter` -/
def ioctlForWaiter (input : List UInt8) (waiter : WaiterId) (host : HostInput) :
    Call IoctlOutcome := do
  let present ← read fun c ↦ c.devices[d.fd]?.isSome
  failIf (present = false) (errorContext d request .deviceStateUnavailable)
  if request = ioctlSyncptRead then
    lift (requireInputSize input 8)
    let id ← lift (inputU32 input 0 >>= parseSyncpoint)
    let timeline ← getTimeline d id ioctlSyncptRead
    return .complete (← lift (writeU32 (sizedOutput input 8) 4 timeline.currentPoint.value))
  else if request = ioctlSyncptIncrement then
    let (id, value) ← incrementRequest d request input host.room
    update fun c ↦ c.signalReached id value
    return .complete (sizedOutput input 4)
  else if request = ioctlSyncptWait then
    lift (requireInputSize input 12)
    waitDirect d request input waiter host.now
  else if request = ioctlSyncptClearEventWait then clearEventWait d request input
  else if request = ioctlSyncptWaitEvent then
    lift (requireInputSize input 16)
    waitEvent d request input .allocateEvent none
  else if request = ioctlSyncptWaitEventEx then
    lift (requireInputSize input 16)
    let slot ← lift (inputU32 input 12 >>= parseSlot)
    let occupied ← read fun c ↦ (c.events d.fd)[slot]?.isSome
    failIf (occupied = false) (.guestResult nvBadParameter)
    waitEvent d request input .registeredEvent (some slot)
  else if request = ioctlSyncptAllocEvent then allocEvent d request input
  else if request = ioctlSyncptFreeEvent then freeEvent d request input
  else fail (errorContext d request .unsupportedOperation)

/-- `query_event`: the event object behind an event id. -/
def queryEvent (eventId : BitVec 32) : Call Nat := do
  let slot ← lift (decodeQueryEventSlot eventId)
  let event ← read fun c ↦ (c.events d.fd)[slot]?
  let event ← okOr event (.guestResult nvBadParameter)
  assert (event.slot = slot) "assertion `left == right` failed"
  return event.event

/-! ## The driver -/

inductive HostControlCall where
  | openDevice (fd : NvDrvFileDescriptor)
  | closeDevice (fd : NvDrvFileDescriptor)
  | clear
  | allocateChannelSyncpoint (d : NvDrvDeviceDescriptor) (request : BitVec 32)
  | releaseChannelSyncpoint (id : GuestSyncpointId)
  | submissionDependencyReached (d : NvDrvDeviceDescriptor) (syncpoint : BitVec 32)
      (value : SyncpointValue)
  | reserveChannelSubmission (d : NvDrvDeviceDescriptor) (request : BitVec 32)
      (id : GuestSyncpointId) (increments : BitVec 32) (room : Bool)
  | completeChannelSubmission (d : NvDrvDeviceDescriptor) (request : BitVec 32)
      (completion : ReservedTimelinePoint)
  | ioctl (d : NvDrvDeviceDescriptor) (request : BitVec 32) (input : List UInt8)
      (waiter : WaiterId) (host : HostInput)
  | queryEvent (d : NvDrvDeviceDescriptor) (eventId : BitVec 32)
  deriving DecidableEq, Repr

inductive HostControlAnswer where
  | done
  | point (point : GuestTimelinePoint)
  | reserved (point : ReservedTimelinePoint)
  | reached (reached : Bool)
  | ioctl (outcome : IoctlOutcome)
  | event (event : Nat)
  deriving DecidableEq, Repr

def HostControlCall.run : HostControlCall → Call HostControlAnswer
  | .openDevice fd => do
    Nvdrv.openDevice fd
    return .done
  | .closeDevice fd => do
    Nvdrv.closeDevice fd
    return .done
  | .clear => do
    clearDevices
    return .done
  | .allocateChannelSyncpoint d request => do
    return .point (← Nvdrv.allocateChannelSyncpoint d request)
  | .releaseChannelSyncpoint id => do
    Nvdrv.releaseChannelSyncpoint id
    return .done
  | .submissionDependencyReached d syncpoint value => do
    return .reached (← Nvdrv.submissionDependencyReached d syncpoint value)
  | .reserveChannelSubmission d request id increments room => do
    return .reserved (← Nvdrv.reserveChannelSubmission d request id increments room)
  | .completeChannelSubmission d request completion => do
    return .point (← Nvdrv.completeChannelSubmission d request completion)
  | .ioctl d request input waiter host => do
    return .ioctl (← ioctlForWaiter d request input waiter host)
  | .queryEvent d eventId => do
    return .event (← Nvdrv.queryEvent d eventId)

end Nixe.Nvdrv
