import Nixe.Collections.Bytes
import Nixe.Effect.Word

/-!
# The HIPC transport header

A message that travels between processes starts with a header that counts its handles and its
buffer descriptors, and goes on with the tables it counts. The decoder reads every table, and
refuses a message whose tables or data words leave the buffer, with a text that says why.

Words are little-endian. The tables are of one kind: a number of entries of one size.
-/

namespace Nixe.Horizon

/-- A reason to refuse a message. -/
abbrev MessageError : Type := String

/-- `COMMAND_BUFFER_SIZE`. -/
def commandBufferSize : Nat := 0x100

inductive BufferMode where
  | normal
  | nonSecure
  | invalid
  | nonDevice
deriving DecidableEq, Repr

/-- The mode occupies two bits. -/
def BufferMode.fromRaw (raw : Nat) : BufferMode :=
  match raw % 4 with
  | 0 => normal
  | 1 => nonSecure
  | 2 => invalid
  | _ => nonDevice

structure SendStaticDescriptor where
  address : Nat
  size : Nat
  index : Nat
deriving DecidableEq, Repr

structure BufferDescriptor where
  address : Nat
  size : Nat
  mode : BufferMode
deriving DecidableEq, Repr

structure ReceiveStaticDescriptor where
  address : Nat
  size : Nat
deriving DecidableEq, Repr

inductive ReceiveStatics where
  | absent
  | auto
  | entries (entries : List ReceiveStaticDescriptor)
deriving DecidableEq, Repr

structure HipcRequest where
  commandType : Nat
  pid : Option Nat
  copyHandles : List Nat
  moveHandles : List Nat
  sendStatics : List SendStaticDescriptor
  sendBuffers : List BufferDescriptor
  receiveBuffers : List BufferDescriptor
  exchangeBuffers : List BufferDescriptor
  receiveStatics : ReceiveStatics
  handleOffset : Nat
  dataOffset : Nat
  dataEnd : Nat
deriving DecidableEq, Repr

/-! ## Reading words -/

def field (value shift width : Nat) : Nat := (value >>> shift) % 2 ^ width

/-- `checked_add` of the codec. -/
def addOffset (left right : Nat) : Except MessageError Nat :=
  match checkedAdd left right with
  | some sum => .ok sum
  | none => .error "HIPC size calculation overflows"

/-- The `size` bytes at `offset`, as a number. -/
def getLittleEndian (bytes : List UInt8) (offset size : Nat) (truncated : MessageError) :
    Except MessageError Nat := do
  let last ← addOffset offset size
  if last ≤ bytes.length then .ok (fromLittleEndian ((bytes.drop offset).take size))
  else .error truncated

def getU32 (bytes : List UInt8) (offset : Nat) : Except MessageError Nat :=
  getLittleEndian bytes offset 4 "truncated HIPC word"

def getU64 (bytes : List UInt8) (offset : Nat) : Except MessageError Nat :=
  getLittleEndian bytes offset 8 "truncated HIPC doubleword"

/-! ## Tables -/

/-- Read `count` entries of `size` bytes from `offset` on; returns the end of the table. -/
def decodeEntries {α : Type} (entry : Nat → Except MessageError α) (size : Nat) :
    Nat → Nat → Except MessageError (List α × Nat)
  | offset, 0 => .ok ([], offset)
  | offset, count + 1 => do
    let value ← entry offset
    let next ← addOffset offset size
    let (values, last) ← decodeEntries entry size next count
    .ok (value :: values, last)

/-- A table of at most `maximum` entries. -/
def decodeTable {α : Type} (entry : Nat → Except MessageError α) (size maximum : Nat)
    (reason : MessageError) (offset count : Nat) : Except MessageError (List α × Nat) :=
  if count ≤ maximum then decodeEntries entry size offset count else .error reason

def decodeWords (bytes : List UInt8) : Nat → Nat → Except MessageError (List Nat × Nat) :=
  decodeTable (getU32 bytes) 4 0xff "too many HIPC words"

def decodeSendStatics (bytes : List UInt8) :
    Nat → Nat → Except MessageError (List SendStaticDescriptor × Nat) :=
  decodeTable (fun offset ↦ do
    let first ← getU32 bytes offset
    let low ← getU32 bytes (← addOffset offset 4)
    .ok { address := low ||| (field first 12 4 <<< 32) ||| (field first 6 6 <<< 36)
          size := first >>> 16
          index := first % 0x40 }) 8 15 "too many send statics"

def decodeBuffers (bytes : List UInt8) :
    Nat → Nat → Except MessageError (List BufferDescriptor × Nat) :=
  decodeTable (fun offset ↦ do
    let sizeLow ← getU32 bytes offset
    let addressLow ← getU32 bytes (← addOffset offset 4)
    let high ← getU32 bytes (← addOffset offset 8)
    .ok { address := addressLow ||| (field high 28 4 <<< 32) ||| (field high 2 22 <<< 36)
          size := sizeLow ||| (field high 24 4 <<< 32)
          mode := .fromRaw (field high 0 2) }) 12 15 "too many HIPC buffers"

def decodeReceiveStatics (bytes : List UInt8) :
    Nat → Nat → Except MessageError (List ReceiveStaticDescriptor × Nat) :=
  decodeTable (fun offset ↦ do
    let low ← getU32 bytes offset
    let high ← getU32 bytes (← addOffset offset 4)
    .ok { address := low ||| ((high % 0x10000) <<< 32)
          size := high >>> 16 }) 8 13 "too many receive statics"

/-! ## The header -/

/-- The special header: the sender's process, if it is sent, the numbers of copied and of moved
handles, and the offset of the handles. -/
def decodeSpecialHeader (raw : List UInt8) (word1 : Nat) :
    Except MessageError (Option Nat × Nat × Nat × Nat) := do
  if word1 >>> 31 = 0 then .ok (none, 0, 0, 8)
  else do
    let special ← getU32 raw 8
    if special >>> 9 ≠ 0 then .error "HIPC special-header padding is nonzero"
    else if special % 2 ≠ 0 then do
      let value ← getU64 raw 12
      .ok (some value, field special 1 4, field special 5 4, 20)
    else .ok (none, field special 1 4, field special 5 4, 12)

def decodeReceiveMode (raw : List UInt8) (mode offset : Nat) :
    Except MessageError (ReceiveStatics × Nat) :=
  match mode with
  | 0 => .ok (.absent, offset)
  | 1 => .error "HIPC receive-static mode 1 is reserved"
  | 2 => .ok (.auto, offset)
  | mode => do
    let (entries, next) ← decodeReceiveStatics raw offset (mode - 2)
    .ok (.entries entries, next)

/-- `HipcRequest::decode`. -/
def HipcRequest.decode (raw : List UInt8) : Except MessageError HipcRequest :=
  if commandBufferSize < raw.length then .error "HIPC command buffer exceeds 0x100 bytes"
  else do
    let word0 ← getU32 raw 0
    let word1 ← getU32 raw 4
    if field word1 14 6 ≠ 0 then .error "HIPC header padding is nonzero"
    else do
      let (pid, copyCount, moveCount, handleOffset) ← decodeSpecialHeader raw word1
      let (copyHandles, offset) ← decodeWords raw handleOffset copyCount
      let (moveHandles, offset) ← decodeWords raw offset moveCount
      let (sendStatics, offset) ← decodeSendStatics raw offset (field word0 16 4)
      let (sendBuffers, offset) ← decodeBuffers raw offset (field word0 20 4)
      let (receiveBuffers, offset) ← decodeBuffers raw offset (field word0 24 4)
      let (exchangeBuffers, offset) ← decodeBuffers raw offset (field word0 28 4)
      let dataEnd ← addOffset offset (field word1 0 10 * 4)
      if raw.length < dataEnd then .error "HIPC data words exceed the command buffer"
      else do
        let (receiveStatics, last) ← decodeReceiveMode raw (field word1 10 4) dataEnd
        if raw.length < last then
          .error "HIPC receive-static list exceeds the command buffer"
        else
          .ok { commandType := word0 % 0x10000
                pid := pid
                copyHandles := copyHandles
                moveHandles := moveHandles
                sendStatics := sendStatics
                sendBuffers := sendBuffers
                receiveBuffers := receiveBuffers
                exchangeBuffers := exchangeBuffers
                receiveStatics := receiveStatics
                handleOffset := handleOffset
                dataOffset := offset
                dataEnd := dataEnd }

end Nixe.Horizon
