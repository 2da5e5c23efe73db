import Nixe.Memory.Contracts
import Nixe.Runtime.Port

/-!
# Handles

A process names its kernel objects by numbers. Objects are shared, so a handle holds the identity
of an object and the state of the object is elsewhere; what the handle adds, the endpoint of a
channel for instance, is part of the handle's own value.
-/

namespace Nixe.Runtime

open Std Memory

structure SharedMemoryObject where
  backing : Nat
  size : Nat
  remotePermissions : MemoryPermissions
deriving DecidableEq, Repr

structure TransferMemoryObject where
  address : Nat
  size : Nat
  permissions : MemoryPermissions
  backing : CanonicalBackingRange
deriving DecidableEq, Repr

/-- A handle value. The kinds that no modelled handler looks into are `other`. -/
inductive HandleObject where
  | readableEvent (event : Nat)
  | thread (threadId : Nat)
  | process (processId : Nat)
  | port (endpoint : PortEndpoint) (port : Nat)
  | session (endpoint : SessionEndpoint) (session : Nat)
  | sharedMemory (object : SharedMemoryObject)
  | transferMemory (object : TransferMemoryObject)
  | other (identity : Nat)
deriving DecidableEq, Repr

namespace HandleObject

/-- `downcast_ref::<ThreadObject>`, as the identity of the thread. -/
def asThread : HandleObject → Option Nat
  | thread id => some id
  | _ => none

def asPort : HandleObject → Option (PortEndpoint × Nat)
  | port endpoint id => some (endpoint, id)
  | _ => none

def asSession : HandleObject → Option (SessionEndpoint × Nat)
  | session endpoint id => some (endpoint, id)
  | _ => none

def asSharedMemory : HandleObject → Option SharedMemoryObject
  | sharedMemory object => some object
  | _ => none

end HandleObject

inductive HandleError where
  | exhausted
  | invalidHandle (handle : Nat)
deriving DecidableEq, Repr

def firstHandle : Nat := 1

def lastHandle : Nat := 0x7fffffff

/-- `changed` is whether the event that announces changes of the table is signalled. -/
structure HandleTable where
  objects : ExtTreeMap Nat HandleObject
  recycled : ExtTreeSet Nat
  nextHandle : Nat
  capacityLimit : Nat
  changed : Bool

namespace HandleTable

def new : HandleTable where
  objects := ∅
  recycled := ∅
  nextHandle := firstHandle
  capacityLimit := lastHandle - firstHandle + 1
  changed := false

def get (t : HandleTable) (handle : Nat) : Option HandleObject := t.objects[handle]?

/-- `get_as`, for the downcast `kind`. -/
def getAs {α : Type} (t : HandleTable) (kind : HandleObject → Option α) (handle : Nat) :
    Option α :=
  (t.get handle).bind kind

/-- The table with `object` under the handle `handle`. -/
def stored (t : HandleTable) (handle : Nat) (object : HandleObject) : HandleTable :=
  { t with objects := t.objects.insert handle object, changed := true }

/-- Recycled handles are used first, smallest first; the counter is 32 bits wide. -/
def insertObject (t : HandleTable) (object : HandleObject) :
    Except HandleError (Nat × HandleTable) :=
  if t.capacityLimit ≤ t.objects.size then .error .exhausted
  else
    match t.recycled.min? with
    | some handle =>
      .ok (handle, { t with recycled := t.recycled.erase handle }.stored handle object)
    | none =>
      if lastHandle < t.nextHandle then .error .exhausted
      else
        .ok (t.nextHandle,
          { t with nextHandle := min (t.nextHandle + 1) (2 ^ 32 - 1) }.stored t.nextHandle object)

def close (t : HandleTable) (handle : Nat) : Except HandleError (HandleObject × HandleTable) :=
  match t.objects[handle]? with
  | none => .error (.invalidHandle handle)
  | some object =>
    .ok (object,
      { t with
        objects := t.objects.erase handle
        recycled := t.recycled.insert handle
        changed := true })

end HandleTable

end Nixe.Runtime
