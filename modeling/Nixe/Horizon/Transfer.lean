import Nixe.Horizon.Context
import Nixe.Horizon.Hipc

/-!
# Handles in messages

A message names kernel objects by handles of the sender. When it is sent the handles are replaced
by the objects, copied or moved out of the sender's table, and when it is received the objects are
given handles of the receiver, which are written into the message.

A transfer that fails on one handle goes on with the others: moved handles are consumed all the
same. Closing the last handle of an object ends the object, which later calls may notice; no
statement of the call that closes it does, so the ends of objects are not followed here.
-/

namespace Nixe.Horizon

open Std Method Memory Nixe.Runtime Scheduler

def currentThreadHandle : Nat := 0xffff8000

def currentProcessHandle : Nat := 0xffff8001

/-- `TLS_COMMAND_BUFFER_SIZE`. -/
def tlsCommandBufferSize : Nat := 0x100

/-- The transport header of a message, if the message has a special header. -/
def decodeTransportHeader (bytes : List UInt8) :
    Except HorizonKernelResult (Option HipcRequest) :=
  match getU32 bytes 4 with
  | .error _ => .ok none
  | .ok word1 =>
    if word1 >>> 31 = 0 then .ok none
    else
      match HipcRequest.decode (bytes.take tlsCommandBufferSize) with
      | .ok message => .ok (some message)
      | .error _ => .error .invalidCombination

section

variable {μ : Type}

def copyIpcObject (s : SvcState μ) (handle : Nat) :
    Except HorizonKernelResult (Option HandleObject) :=
  if handle = 0 then .ok none
  else if handle = currentProcessHandle then .ok (some (.process s.processId))
  else if handle = currentThreadHandle then .ok (some (.thread s.thread))
  else
    match s.handles.get handle with
    | some object => .ok (some object)
    | none => .error .invalidHandle

/-- Copy the objects of `handles`. After an error nothing more is copied. -/
def copyObjects (s : SvcState μ) :
    Option HorizonKernelResult → List Nat →
      Option HorizonKernelResult × List (Option HandleObject)
  | error, [] => (error, [])
  | some error, _ :: handles =>
    let (result, objects) := copyObjects s (some error) handles
    (result, none :: objects)
  | none, handle :: handles =>
    match copyIpcObject s handle with
    | .ok object =>
      let (result, objects) := copyObjects s none handles
      (result, object :: objects)
    | .error error =>
      let (result, objects) := copyObjects s (some error) handles
      (result, none :: objects)

/-- Move the objects of `handles` out of the table, also after an error. -/
def moveObjects :
    HandleTable → Option HorizonKernelResult → List Nat →
      Option HorizonKernelResult × List (Option HandleObject) × HandleTable
  | table, error, [] => (error, [], table)
  | table, error, handle :: handles =>
    if handle = 0 then
      let (result, objects, table) := moveObjects table error handles
      (result, none :: objects, table)
    else if handle = currentProcessHandle ∨ handle = currentThreadHandle then
      let (result, objects, table) := moveObjects table (some .invalidHandle) handles
      (result, none :: objects, table)
    else
      match table.close handle with
      | .ok (object, table) =>
        let (result, objects, table) := moveObjects table error handles
        (result, (if error.isNone then some object else none) :: objects, table)
      | .error _ =>
        let (result, objects, table) := moveObjects table (some .invalidHandle) handles
        (result, none :: objects, table)

/-- `capture_message_handles`: the message that is sent, and the sender's table. -/
def captureMessageHandles (s : SvcState μ) (bytes : List UInt8) (allowMoveHandles : Bool) :
    Except HorizonKernelResult (SessionMessage HandleObject) × HandleTable :=
  match decodeTransportHeader bytes with
  | .error error => (.error error, s.handles)
  | .ok none => (.ok (.buffer bytes), s.handles)
  | .ok (some message) =>
    if !allowMoveHandles && !message.moveHandles.isEmpty then
      (.error .invalidCombination, s.handles)
    else
      let (copyError, copyHandles) := copyObjects s none message.copyHandles
      let (error, moveHandles, table) := moveObjects s.handles copyError message.moveHandles
      match error with
      | some error => (.error error, table)
      | none => (.ok (.transportedBuffer bytes copyHandles moveHandles), table)

/-- Messages with handles are never light. -/
theorem isLight_of_capture {s : SvcState μ} {bytes : List UInt8} {allowMoveHandles : Bool}
    {message : SessionMessage HandleObject}
    (h : (captureMessageHandles s bytes allowMoveHandles).1 = .ok message) :
    message.isLight = false := by
  rw [captureMessageHandles] at h
  split at h
  · cases h
  · obtain rfl := Except.ok.inj h
    rfl
  · split at h
    · cases h
    · dsimp only at h
      split at h
      · cases h
      · obtain rfl := Except.ok.inj h
        rfl

end

/-! ## Receiving -/

/-- Give the objects handles of the table. If the table is full the handles given so far are closed
again. -/
def allocateHandles :
    HandleTable → List Nat → List (Option HandleObject) → Option (List Nat) × HandleTable
  | table, _, [] => (some [], table)
  | table, allocated, none :: objects =>
    let (handles, table) := allocateHandles table allocated objects
    (handles.map (0 :: ·), table)
  | table, allocated, some object :: objects =>
    match table.insertObject object with
    | .ok (handle, table) =>
      let (handles, table) := allocateHandles table (allocated ++ [handle]) objects
      (handles.map (handle :: ·), table)
    | .error _ =>
      (none, allocated.foldl (fun table handle ↦
        match table.close handle with
        | .ok (_, table) => table
        | .error _ => table) table)

/-- The little-endian bytes of a handle. -/
def handleBytes (handle : Nat) : List UInt8 :=
  [.ofNat handle, .ofNat (handle / 0x100), .ofNat (handle / 0x10000), .ofNat (handle / 0x1000000)]

/-- Write the handles into the message from `offset` on. -/
def encodeHandles (bytes : List UInt8) (offset : Nat) (handles : List Nat) : List UInt8 :=
  bytes.take offset ++ handles.flatMap handleBytes ++ bytes.drop (offset + 4 * handles.length)

/-- `materialize_message_handles_in_table`; light messages have no bytes. -/
def materializeMessageHandles (table : HandleTable) :
    SessionMessage HandleObject →
      Except HorizonKernelResult (Option (List UInt8)) × HandleTable
  | .buffer bytes => (.ok (some bytes), table)
  | .light _ => (.ok none, table)
  | .transportedBuffer bytes copyHandles moveHandles =>
    match decodeTransportHeader bytes with
    | .error error => (.error error, table)
    | .ok none => (.error .invalidCombination, table)
    | .ok (some header) =>
      if header.copyHandles.length ≠ copyHandles.length ∨
          header.moveHandles.length ≠ moveHandles.length then
        (.error .invalidCombination, table)
      else
        match allocateHandles table [] (copyHandles ++ moveHandles) with
        | (some handles, table) =>
          (.ok (some (encodeHandles bytes header.handleOffset handles)), table)
        | (none, table) => (.error .outOfHandles, table)

/-- `close_encoded_handles`. -/
def closeEncodedHandles (table : HandleTable) (bytes : List UInt8) : HandleTable :=
  match decodeTransportHeader bytes with
  | .ok (some message) =>
    (message.copyHandles ++ message.moveHandles).foldl (fun table handle ↦
      if handle = 0 then table
      else
        match table.close handle with
        | .ok (_, table) => table
        | .error _ => table) table
  | _ => table

end Nixe.Horizon
