import Nixe.Horizon.Context

/-!
# Mutexes and condition variables

The four supervisor calls behind the guest's mutexes and condition variables. A mutex is a word of
guest memory that holds the tag of its owner, or zero. A thread that finds it taken queues up at
its address, and the thread that releases it signals the head of the queue, which will find itself
signalled when its call is attempted again.

A thread waits for a condition at a *key*. It releases the mutex, queues up at the key, and when
it is signalled there takes the mutex again.

Both calls that wait end, when they find themselves signalled, with a store of the tag they were
queued with.
-/

namespace Nixe.Horizon

open Std Method Memory Nixe.Runtime Scheduler

variable {μ : Type} [GuestMemory μ]

/-! ## Shared statements -/

/-- Store `tag` into the mutex and record the owner. -/
def takeMutex (mutexAddress tag : Nat) : SvcM μ ExceptionDispatchOutcome := do
  match ← writeProcessWideKeyWord .tag mutexAddress tag with
  | .error _ => finish .invalidCurrentMemory
  | .ok () => do
    update fun s ↦ s.mapWaits (·.setOwner mutexAddress s.thread)
    finish .success

/-- Forget the owner of a mutex that was released and signal the head of its queue. The priority
that the owner may have inherited is to be restored. -/
def releaseOwner (mutexAddress : Nat) (operation : String) : SvcM μ Unit := do
  let owner ← read (·.addressWaits.owners[mutexAddress]?)
  update (·.mapWaits (·.removeOwner mutexAddress))
  ifSome owner fun owner ↦ queueRuntimeRequest (.restorePriority owner mutexAddress) operation
  update (·.mapWaits (·.signalOne mutexAddress))

/-! ## ArbitrateLock -/

/-- The part of `arbitrate_lock` for a thread that finds the mutex taken. -/
def lockContended (ownerHandle mutexAddress tag : Nat) : SvcM μ ExceptionDispatchOutcome := do
  let owner ← read (·.handles.getAs HandleObject.asThread ownerHandle)
  match owner with
  | none => finish .invalidHandle
  | some ownerObjectId => do
    let thread ← read (·.thread)
    queueRuntimeRequest (.inheritPriority ownerObjectId thread mutexAddress) "ArbitrateLock"
    update (·.mapWaits (·.enqueue mutexAddress thread tag))
    update (·.mapDispatcher (·.wakeOn thread [.addressWaiter mutexAddress thread] none))
    pure (.suspend .retry)

def arbitrateLock : SvcM μ ExceptionDispatchOutcome := do
  let ownerHandle ← read (·.register32 0)
  let mutexAddress ← read (·.register 1)
  let tag ← read (·.register32 2)
  finishIf (¬4 ∣ mutexAddress) .invalidAddress
  let thread ← read (·.thread)
  let waits ← read (·.addressWaits)
  if waits.isSignalled mutexAddress thread then do
    update (·.mapWaits (·.remove mutexAddress thread))
    update (·.mapDispatcher fun d ↦ { d with pendingWakes := d.pendingWakes.erase thread })
    takeMutex mutexAddress ((waits.value mutexAddress thread).getD tag)
  else do
    match ← readProcessWideKeyWord mutexAddress with
    | .error _ => finish .invalidCurrentMemory
    | .ok word =>
      if word = 0 then takeMutex mutexAddress tag
      else if waits.contains mutexAddress thread then pure (.suspend .retry)
      else lockContended ownerHandle mutexAddress tag

/-! ## ArbitrateUnlock -/

def arbitrateUnlock : SvcM μ ExceptionDispatchOutcome := do
  let mutexAddress ← read (·.register 0)
  finishIf (¬4 ∣ mutexAddress) .invalidAddress
  match ← writeProcessWideKeyWord .release mutexAddress 0 with
  | .error _ => finish .invalidCurrentMemory
  | .ok () => do
    releaseOwner mutexAddress "ArbitrateUnlock"
    finish .success

/-! ## WaitProcessWideKeyAtomic -/

/-- The immediate of WaitProcessWideKeyAtomic. -/
def waitKeyImmediate : Nat := 0x1c

/-- Flag the key and release the mutex; the second store is made if the first succeeds. Returns
whether a store failed. -/
def publishAndRelease (keyAddress mutexAddress : Nat) : SvcM μ Bool := do
  match ← writeProcessWideKeyWord .key keyAddress 1 with
  | .error _ => pure true
  | .ok () => do
    match ← writeProcessWideKeyWord .release mutexAddress 0 with
    | .error _ => pure true
    | .ok () => pure false

/-- The first attempt of a wait: release the mutex and queue up at the key. -/
def beginKeyWait (mutexAddress keyAddress tag : Nat) (timeout : Int) :
    SvcM μ ExceptionDispatchOutcome := do
  match ← readProcessWideKeyWord keyAddress with
  | .error _ => finish .invalidCurrentMemory
  | .ok oldKey =>
    match ← readProcessWideKeyWord mutexAddress with
    | .error _ => finish .invalidCurrentMemory
    | .ok oldMutex => do
      let failed ← publishAndRelease keyAddress mutexAddress
      if failed then do
        let _ ← writeProcessWideKeyWord .restoreKey keyAddress oldKey
        let _ ← writeProcessWideKeyWord .restoreMutex mutexAddress oldMutex
        finish .invalidCurrentMemory
      else do
        releaseOwner mutexAddress "WaitProcessWideKeyAtomic mutex release"
        finishIf (timeout = 0) .timedOut
        let thread ← read (·.thread)
        update (·.mapWaits (·.enqueue keyAddress thread tag))
        update (·.mapDispatcher fun d ↦ (d.waitExpired thread waitKeyImmediate timeout).2)
        update (·.mapDispatcher fun d ↦
          d.wakeOn thread [.addressWaiter keyAddress thread]
            d.waitDeadlines[WaitKey.mk thread waitKeyImmediate]?)
        pure (.suspend .retry)

/-- A later attempt of a wait that has not been signalled. -/
def continueKeyWait (keyAddress : Nat) (timeout : Int) : SvcM μ ExceptionDispatchOutcome := do
  let thread ← read (·.thread)
  let expired ← read fun s ↦ (s.dispatcher.waitExpired thread waitKeyImmediate timeout).1
  update (·.mapDispatcher fun d ↦ (d.waitExpired thread waitKeyImmediate timeout).2)
  if expired then do
    update (·.mapWaits (·.remove keyAddress thread))
    update (·.mapDispatcher (·.finishWait thread waitKeyImmediate))
    finish .timedOut
  else pure (.suspend .retry)

/-- The address of a key is rounded down to a word. -/
def keyAddress (raw : UInt64) : Nat := (raw &&& ~~~3).toNat

def waitProcessWideKeyAtomic : SvcM μ ExceptionDispatchOutcome := do
  let mutexAddress ← read (·.register 0)
  let key ← read fun s ↦ keyAddress (s.registers 1)
  let tag ← read (·.register32 2)
  let timeout ← read (·.registerSigned 3)
  finishIf (¬4 ∣ mutexAddress) .invalidAddress
  let thread ← read (·.thread)
  let waits ← read (·.addressWaits)
  if waits.isSignalled key thread then do
    update (·.mapWaits (·.remove key thread))
    update (·.mapDispatcher (·.finishWait thread waitKeyImmediate))
    takeMutex mutexAddress ((waits.value key thread).getD tag)
  else if waits.contains key thread then continueKeyWait key timeout
  else beginKeyWait mutexAddress key tag timeout

/-! ## SignalProcessWideKey -/

/-- A count that is not positive as a signed number signals every waiter. -/
def signalLimit (count : Nat) : Nat :=
  if count = 0 ∨ 2 ^ 31 ≤ count then wordMax else count

/-- `process_wide_key_fault_is_internal`. -/
def faultIsInternal (fault : DataAccessFault) : Bool :=
  match fault.reason with
  | .contentGenerationExhausted | .hostBacking _ => true
  | _ => false

def signalProcessWideKey : SvcM μ ExceptionDispatchOutcome := do
  let key ← read fun s ↦ keyAddress (s.registers 0)
  let limit ← read fun s ↦ signalLimit (s.register32 1)
  update (·.mapWaits (·.signal key limit))
  match ← writeProcessWideKeyWord .key key 0 with
  | .error fault =>
    if faultIsInternal fault then fail (.fault (.guestMemory 0x1d fault))
    else pure (.resume .next)
  | .ok () => pure (.resume .next)

/-! ## Calls -/

/-- The supervisor calls on mutexes and keys. -/
inductive LockSvc where
  | arbitrateLock
  | arbitrateUnlock
  | waitProcessWideKeyAtomic
  | signalProcessWideKey
deriving DecidableEq, Repr

def LockSvc.handle : LockSvc → SvcM μ ExceptionDispatchOutcome
  | arbitrateLock => Horizon.arbitrateLock
  | arbitrateUnlock => Horizon.arbitrateUnlock
  | waitProcessWideKeyAtomic => Horizon.waitProcessWideKeyAtomic
  | signalProcessWideKey => Horizon.signalProcessWideKey

end Nixe.Horizon
