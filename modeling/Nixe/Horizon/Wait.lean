import Nixe.Horizon.Transfer

/-!
# Waiting for objects

WaitSynchronization waits until one of a list of objects is signalled. ReplyAndReceive first
replies to a session, if it is given one, and then waits for a request at one of a list of ports
and sessions. Both read their handles from guest memory at every attempt, and keep the deadline of
the wait in the dispatcher between attempts; ReplyAndReceive also keeps there that its reply was
sent.
-/

namespace Nixe.Horizon

open Std Method Memory Nixe.Runtime Scheduler

/-- `MAX_WAIT_HANDLES`. -/
def maxWaitHandles : Nat := 0x40

/-- `USER_BUFFER_ALIGNMENT`. -/
def userBufferAlignment : Nat := 0x1000

/-! ## Handle arrays -/

/-- Why an array of handles cannot be read. -/
inductive HandleArrayError where
  | overflow
  | fault (fault : DataAccessFault)
deriving DecidableEq, Repr

/-- The words of the array at `pointer` with the given indices. -/
def readHandleArray {μ : Type} [GuestMemory μ] (memory : μ) (pointer : Nat) :
    List Nat → Except HandleArrayError (List Nat)
  | [] => .ok []
  | index :: indices =>
    match checkedAdd pointer (index * 4) with
    | none => .error .overflow
    | some address =>
      match GuestMemory.readWord memory address with
      | .error fault => .error (.fault fault)
      | .ok handle => (readHandleArray memory pointer indices).map (handle :: ·)

/-! ## WaitSynchronization -/

/-- The immediate of WaitSynchronization. -/
def waitSynchronizationImmediate : Nat := 0x18

/-- What a look at the objects of a wait finds. -/
inductive ScanResult where
  | invalid
  | signalled (index : Nat)
  | pending (events : List WakeEvent)
deriving DecidableEq, Repr

section

variable {μ : Type}

/-- The event of the object behind a handle, with its state: events and threads can be waited
for. -/
def waitEvent (s : SvcState μ) (handle : Nat) : Option (WakeEvent × Bool) :=
  match s.handles.get handle with
  | some (.readableEvent event) => some (.event event, s.events event)
  | some (.thread thread) => some (.completion thread, s.completions thread)
  | _ => none

/-- Look at the objects in order, up to the first that is invalid or signalled. -/
def scanHandles (s : SvcState μ) : Nat → List Nat → ScanResult
  | _, [] => .pending []
  | index, handle :: handles =>
    match waitEvent s handle with
    | none => .invalid
    | some (_, true) => .signalled index
    | some (event, false) =>
      match scanHandles s (index + 1) handles with
      | .pending events => .pending (event :: events)
      | found => found

/-- `changed_event().clear()`. -/
def SvcState.handlesSeen (s : SvcState μ) : SvcState μ :=
  { s with handles := { s.handles with changed := false } }

variable [GuestMemory μ]

def waitSynchronization : SvcM μ ExceptionDispatchOutcome := do
  let pointer ← read (·.register 1)
  let count ← read (·.register32 2)
  let timeout ← read (·.registerSigned 3)
  finishIf (maxWaitHandles < count) .outOfRange
  match ← read fun s ↦ readHandleArray s.memory pointer (List.range count) with
  | .error _ => finish .invalidAddress
  | .ok handles => do
    let thread ← read (·.thread)
    match ← read fun s ↦ scanHandles s 0 handles with
    | .invalid => finish .invalidHandle
    | .signalled index => do
      update (·.mapDispatcher (·.finishWait thread waitSynchronizationImmediate))
      setResult .success
      update (·.writeRegister 1 (UInt64.ofNat index))
      pure (.resume .next)
    | .pending events => do
      update (·.handlesSeen)
      let expired ← read fun s ↦
        (s.dispatcher.waitExpired thread waitSynchronizationImmediate timeout).1
      update (·.mapDispatcher fun d ↦
        (d.waitExpired thread waitSynchronizationImmediate timeout).2)
      if expired then do
        update (·.mapDispatcher (·.finishWait thread waitSynchronizationImmediate))
        finish .timedOut
      else do
        update (·.mapDispatcher fun d ↦ d.wakeOn thread (events ++ [.handlesChanged])
          d.waitDeadlines[WaitKey.mk thread waitSynchronizationImmediate]?)
        pure (.suspend .retry)

end

/-! ## ReplyAndReceive -/

/-- The arguments of ReplyAndReceive, from the registers. -/
structure ReplyArguments where
  immediate : Nat
  address : Nat
  size : Nat
  handlesAddress : Nat
  count : Nat
  replyTarget : Nat
  timeout : Int
deriving DecidableEq, Repr

inductive ReplyWaitTarget where
  | port (port : Nat)
  | session (session : Nat)
deriving DecidableEq, Repr

section

variable {μ α : Type}

/-- With a user buffer the message is at an address of the caller's choice. -/
def SvcState.replyArguments (s : SvcState μ) (userBuffer : Bool) : ReplyArguments :=
  if userBuffer then
    { immediate := 0x44
      address := s.register 1
      size := s.register 2
      handlesAddress := s.register 3
      count := s.register32 4
      replyTarget := s.register32 5
      timeout := s.registerSigned 6 }
  else
    { immediate := 0x43
      address := s.tls
      size := tlsCommandBufferSize
      handlesAddress := s.register 1
      count := s.register32 2
      replyTarget := s.register32 3
      timeout := s.registerSigned 4 }

/-- The result with which the arguments are refused, if they are. -/
def ReplyArguments.refusal (a : ReplyArguments) (userBuffer : Bool) :
    Option HorizonKernelResult :=
  if userBuffer ∧ ¬userBufferAlignment ∣ a.address then some .invalidAddress
  else if userBuffer ∧ ¬userBufferAlignment ∣ a.size then some .invalidSize
  else if userBuffer ∧ a.size = 0 then some .invalidSize
  else if userBuffer ∧ wordBound ≤ a.address + a.size then some .invalidCurrentMemory
  else if maxWaitHandles < a.count then some .outOfRange
  else none

/-- Servers wait at ports and at sessions that are not light. -/
def replyWaitTarget (s : SvcState μ) (handle : Nat) : Option ReplyWaitTarget :=
  match s.handles.get handle with
  | some (.port .server port) => some (.port port)
  | some (.session .server session) =>
    if (s.sessions session).isLight then none else some (.session session)
  | _ => none

/-- The targets of a list of handles, if all are valid. -/
def replyWaitTargets (s : SvcState μ) (handles : List Nat) : Option (List ReplyWaitTarget) :=
  handles.mapM (replyWaitTarget s)

def SvcState.setSession (s : SvcState μ) (id : Nat) (session : Session HandleObject) :
    SvcState μ :=
  { s with sessions := fun i ↦ if i = id then session else s.sessions i }

/-- A call on a session. -/
def onSession (id : Nat) (call : SessionM HandleObject α) : SvcM μ (Except SessionError α) :=
  fun s ↦
    match call (s.sessions id) with
    | .ok a session => .ok (.ok a) (s.setSession id session)
    | .err error session => .ok (.error error) (s.setSession id session)
    | .panic message => .panic message

/-- `session_error`. -/
def sessionError : SessionError → HorizonKernelResult
  | .peerClosed => .sessionClosed
  | .queueFull => .outOfResource
  | .wrongEndpoint | .noRequest | .replyPending | .messageKindMismatch => .invalidState

/-- `write_register(.., 1, u32::MAX)` before an error of the reply is returned. -/
def setNoIndex : SvcM μ Unit := update (·.writeRegister 1 0xffffffff)

def targetSignalled (s : SvcState μ) : ReplyWaitTarget → Bool
  | .port port => (s.ports port).isSignalled .server
  | .session session => (s.sessions session).isSignalled .server

def ReplyWaitTarget.wakeEvent : ReplyWaitTarget → WakeEvent
  | port id => .port id
  | session id => .session id

/-- `clear` of the wake event of a target. -/
def SvcState.targetSeen (s : SvcState μ) : ReplyWaitTarget → SvcState μ
  | .port id => { s with ports := fun i ↦
      if i = id then { s.ports id with wakeEvent := false } else s.ports i }
  | .session id => s.setSession id { s.sessions id with wakeEvent := false }

/-- End the wait and return from the call. -/
def finishReply (a : ReplyArguments) (code : HorizonKernelResult) : SvcM μ α := do
  update fun s ↦ s.mapDispatcher (·.finishReplyWait s.thread a.immediate)
  finish code

/-- End the wait and return the index of the target that ended it. -/
def finishReplyAt (a : ReplyArguments) (code : HorizonKernelResult) (index : Nat) : SvcM μ α := do
  update fun s ↦ s.mapDispatcher (·.finishReplyWait s.thread a.immediate)
  setResult code
  update (·.writeRegister 1 (UInt64.ofNat index))
  fail (.resume .next)

variable [MessageMemory μ]

/-- `read_guest_message` on behalf of a reply. -/
def readReply (a : ReplyArguments) : SvcM μ (List UInt8) := do
  let reserved ← read (·.reserves a.size)
  if !reserved then do
    setNoIndex
    finish .outOfResource
  else do
    match ← read fun s ↦ MessageMemory.readBytes s.memory a.address a.size with
    | .ok bytes => pure bytes
    | .error fault => do
      setNoIndex
      reject (.guestMemory a.immediate fault)

/-- Reply to the session behind the reply target. -/
def sendReply (a : ReplyArguments) : SvcM μ Unit := do
  match ← read (·.handles.getAs HandleObject.asSession a.replyTarget) with
  | none => finish .invalidHandle
  | some (endpoint, id) => do
    let isLight ← read fun s ↦ (s.sessions id).isLight
    finishIf (endpoint ≠ .server ∨ isLight = true) .invalidHandle
    let bytes ← readReply a
    let captured ← read fun s ↦ captureMessageHandles s bytes true
    update fun s ↦ { s with handles := captured.2 }
    match captured.1 with
    | .error code => do
      setNoIndex
      finish code
    | .ok message => do
      match ← onSession id (Session.reply endpoint message) with
      | .error error => do
        setNoIndex
        finish (sessionError error)
      | .ok () =>
        update fun s ↦ { s.mapDispatcher fun d ↦
          { d with replySent := d.replySent.insert s.thread } with replies := id :: s.replies }

/-- Hand a received message to the caller. -/
def deliverRequest (a : ReplyArguments) (index : Nat) (message : SessionMessage HandleObject) :
    SvcM μ Unit := do
  if message.isLight then finishReply a .invalidState
  else do
    let materialized ← read fun s ↦ materializeMessageHandles s.handles message
    update fun s ↦ { s with handles := materialized.2 }
    match materialized.1 with
    | .error code => finishReply a code
    | .ok none => abort "buffer message materializes as bytes"
    | .ok (some request) =>
      if a.size < request.length then do
        update fun s ↦ { s with handles := closeEncodedHandles s.handles request }
        finishReply a .invalidSize
      else do
        match ← read fun s ↦ MessageMemory.writeBytes s.memory a.address request with
        | .error fault => do
          update fun s ↦ { s with handles := closeEncodedHandles s.handles request }
          update fun s ↦ s.mapDispatcher (·.finishReplyWait s.thread a.immediate)
          reject (.guestMemory a.immediate fault)
        | .ok memory => do
          update fun s ↦ { s with memory := memory }
          finishReplyAt a .success index

/-- Look at the targets in order, from `index` on, and return with the first that has something
for the caller. -/
def serveTargets (a : ReplyArguments) : Nat → List ReplyWaitTarget → SvcM μ Unit
  | _, [] => pure ()
  | index, target :: targets => do
    let signalled ← read fun s ↦ targetSignalled s target
    if !signalled then serveTargets a (index + 1) targets
    else
      match target with
      | .port _ => finishReplyAt a .success index
      | .session id => do
        match ← onSession id (Session.receive .server) with
        | .ok message => deliverRequest a index message
        | .error .messageKindMismatch => finishReply a .invalidState
        | .error .peerClosed => finishReplyAt a .sessionClosed index
        | .error .noRequest => serveTargets a (index + 1) targets
        | .error error => finishReply a (sessionError error)

/-- The wait for the targets, after none of them had anything for the caller. -/
def awaitTargets (a : ReplyArguments) (targets : List ReplyWaitTarget) :
    SvcM μ ExceptionDispatchOutcome := do
  let thread ← read (·.thread)
  let expired ← read fun s ↦ (s.dispatcher.waitExpired thread a.immediate a.timeout).1
  update (·.mapDispatcher fun d ↦ (d.waitExpired thread a.immediate a.timeout).2)
  if expired then finishReply a .timedOut
  else do
    update (·.handlesSeen)
    update fun s ↦ targets.foldl SvcState.targetSeen s
    let becameReady ← read fun s ↦ targets.any (targetSignalled s)
    update fun s ↦
      if becameReady then s
      else s.mapDispatcher fun d ↦
        d.wakeOn thread (targets.map ReplyWaitTarget.wakeEvent ++ [.handlesChanged])
          d.waitDeadlines[WaitKey.mk thread a.immediate]?
    pure (.suspend .retry)

/-- Send the reply of the call, unless an earlier attempt has sent it. -/
def replyOnce (a : ReplyArguments) : SvcM μ Unit := do
  let sent ← read fun s ↦ s.dispatcher.replySent.contains s.thread
  if a.replyTarget = 0 then
    update fun s ↦ s.mapDispatcher fun d ↦ { d with replySent := d.replySent.erase s.thread }
  else if sent then pure ()
  else sendReply a

def replyAndReceive (userBuffer : Bool) : SvcM μ ExceptionDispatchOutcome := do
  let a ← read (·.replyArguments userBuffer)
  match a.refusal userBuffer with
  | some code => finish code
  | none => do
    match ← read fun s ↦ readHandleArray s.memory a.handlesAddress (List.range a.count) with
    | .error .overflow => finish .invalidAddress
    | .error (.fault fault) => reject (.guestMemory a.immediate fault)
    | .ok handles => do
      match ← read fun s ↦ replyWaitTargets s handles with
      | none => finish .invalidHandle
      | some targets => do
        replyOnce a
        serveTargets a 0 targets
        awaitTargets a targets

end

end Nixe.Horizon
