import Nixe.Collections.Bytes
import Nixe.Effect.Fallible
import Nixe.Effect.Method

/-!
# The pushbuffer decoder

The command stream of a submission is the concatenation of its pushbuffer entries. The decoder
reads it word by word: a header selects a control instruction or a sequence of method writes, and
the arguments of the sequence follow the header, possibly in the next entry. An end-segment
control drops what is left of its own entry.

The words come from an iterator that can fail. It is modelled by the list of its items; to peek is
to look at the head of the list. Allocation is taken to succeed.
-/

namespace Nixe.Maxwell

/-! ## Words and packets -/

structure MaxwellGpfifoSourceLocation where
  channel : Nat
  frontend : Nat
  entryIndex : Nat
  pushbuffer : Nat
  wordOffset : Nat
  mapping : Nat
  generation : Nat
deriving DecidableEq, Repr

structure MaxwellPushbufferWord where
  value : UInt32
  location : MaxwellGpfifoSourceLocation
deriving DecidableEq, Repr

/-- A subchannel has three bits. -/
abbrev MaxwellPushbufferSubchannel : Type := Fin 8

inductive MaxwellMethodPacketMode where
  | incrementing
  | nonIncrementing
  | immediate
  | incrementOnce
deriving DecidableEq, Repr

/-- One method write; `method` is a byte address. -/
structure MaxwellDecodedMethod where
  method : UInt32
  argument : UInt32
  argumentSource : MaxwellGpfifoSourceLocation
deriving DecidableEq, Repr

structure MaxwellDecodedMethodPacket where
  mode : MaxwellMethodPacketMode
  header : MaxwellGpfifoSourceLocation
  subchannel : Option MaxwellPushbufferSubchannel
  methods : List MaxwellDecodedMethod
deriving DecidableEq, Repr

inductive MaxwellPushbufferControl where
  | nop
  | setSubdeviceMask (mask : UInt16)
  | storeSubdeviceMask (mask : UInt16)
  | useSubdeviceMask
  | endSegment
deriving DecidableEq, Repr

inductive MaxwellDecodedPacket where
  | methods (packet : MaxwellDecodedMethodPacket)
  | control (operation : MaxwellPushbufferControl) (source : MaxwellGpfifoSourceLocation)
deriving DecidableEq, Repr

/-- Failures; `ε` is the type of the failures of the word source. -/
inductive MaxwellPushbufferDecodeError (ε : Type) where
  | source (error : ε)
  | unknownEncoding (source : MaxwellGpfifoSourceLocation) (word : UInt32)
      (secondaryOpcode : UInt32)
  | invalidControlEncoding (source : MaxwellGpfifoSourceLocation) (word : UInt32)
  | reservedMethodBit (source : MaxwellGpfifoSourceLocation) (word : UInt32)
  | methodRangeOverflow (source : MaxwellGpfifoSourceLocation) (mode : MaxwellMethodPacketMode)
      (firstMethod : UInt32) (count : Nat)
  | truncatedPacket (source : MaxwellGpfifoSourceLocation)
      (expectedArguments availableArguments : Nat)
deriving DecidableEq, Repr

/-! ## Header fields -/

def methodAddressMask : UInt32 := 0x0fff
def methodReservedBit : UInt32 := 0x1000
def subchannelShift : UInt32 := 13
def subchannelMask : UInt32 := 0x7
def countShift : UInt32 := 16
def countMask : UInt32 := 0x1fff
def secondaryOpcodeShift : UInt32 := 29
def secondaryOpcodeMask : UInt32 := 0x7
def maxMethodDword : Nat := 0x0fff

def opcodeGroupZero : UInt32 := 0
def opcodeIncrementing : UInt32 := 1
def opcodeNonIncrementing : UInt32 := 3
def opcodeImmediate : UInt32 := 4
def opcodeIncrementOnce : UInt32 := 5
def opcodeEndSegment : UInt32 := 7

def controlSetSubdeviceMask : UInt16 := 1
def controlStoreSubdeviceMask : UInt16 := 2
def controlUseSubdeviceMask : UInt16 := 3

def methodEncodings : List (UInt32 × MaxwellMethodPacketMode) :=
  [(opcodeIncrementing, .incrementing), (opcodeNonIncrementing, .nonIncrementing),
    (opcodeImmediate, .immediate), (opcodeIncrementOnce, .incrementOnce)]

def secondaryOpcode (word : UInt32) : UInt32 :=
  (word >>> secondaryOpcodeShift) &&& secondaryOpcodeMask

def encodedCount (word : UInt32) : UInt32 := (word >>> countShift) &&& countMask

def encodedSubchannel (word : UInt32) : MaxwellPushbufferSubchannel :=
  Fin.ofNat 8 ((word >>> subchannelShift) &&& subchannelMask).toNat

def firstMethodDword (word : UInt32) : UInt32 := word &&& methodAddressMask

/-- `method_id` -/
def methodId (dword : Nat) : UInt32 := UInt32.ofNat (dword * 4)

/-! ## Packets -/

section

variable {ε : Type}

/-- The words that are left, or the failures to read them. -/
abbrev WordStream (ε : Type) : Type := List (Except ε MaxwellPushbufferWord)

/-- Results of the decoder; with the packet it returns the stream behind it. -/
abbrev Decoding (ε : Type) : Type → Type := Except (MaxwellPushbufferDecodeError ε)

def nextWord : WordStream ε → Decoding ε (Option MaxwellPushbufferWord × WordStream ε)
  | [] => .ok (none, [])
  | .ok word :: words => .ok (some word, words)
  | .error error :: _ => .error (.source error)

def decodeGroupZeroControl (word : MaxwellPushbufferWord) :
    Decoding ε MaxwellDecodedPacket :=
  let opcode := (word.value >>> 16).toUInt16
  let low := word.value.toUInt16
  if opcode = controlSetSubdeviceMask ∧ low &&& 0xf = 0 then
    .ok (.control (.setSubdeviceMask (low >>> 4)) word.location)
  else if opcode = controlStoreSubdeviceMask ∧ low &&& 0xf = 0 then
    .ok (.control (.storeSubdeviceMask (low >>> 4)) word.location)
  else if opcode = controlUseSubdeviceMask ∧ low = 0 then
    .ok (.control .useSubdeviceMask word.location)
  else .error (.invalidControlEncoding word.location word.value)

/-- The last method of a sequence of `count` writes. -/
def lastMethodDword (mode : MaxwellMethodPacketMode) (first count : Nat) : Nat :=
  match mode with
  | .incrementing => first + (count - 1)
  | .incrementOnce => if count > 1 then first + 1 else first
  | .nonIncrementing | .immediate => first

def validateMethodRange (source : MaxwellGpfifoSourceLocation) (mode : MaxwellMethodPacketMode)
    (first count : Nat) : Decoding ε Unit :=
  if lastMethodDword mode first count ≤ maxMethodDword then .ok ()
  else .error (.methodRangeOverflow source mode (methodId first) count)

def methodDword (mode : MaxwellMethodPacketMode) (first index : Nat) : Nat :=
  match mode with
  | .incrementing => first + index
  | .incrementOnce => if index ≠ 0 then first + 1 else first
  | .nonIncrementing | .immediate => first

/-- The loop that reads the arguments from the index `index` on; `remaining` are left. -/
def decodeArguments (source : MaxwellGpfifoSourceLocation) (mode : MaxwellMethodPacketMode)
    (first count : Nat) : (index remaining : Nat) → WordStream ε →
    Decoding ε (List MaxwellDecodedMethod × WordStream ε)
  | _, 0, words => .ok ([], words)
  | index, remaining + 1, words => do
    match ← nextWord words with
    | (none, _) => .error (.truncatedPacket source count index)
    | (some argument, words) =>
      let (methods, words) ← decodeArguments source mode first count (index + 1) remaining words
      .ok (⟨methodId (methodDword mode first index), argument.value, argument.location⟩ :: methods,
        words)

/-- The number of writes that a header announces. -/
def methodCount (mode : MaxwellMethodPacketMode) (word : UInt32) : Nat :=
  if mode = .immediate then 1 else (encodedCount word).toNat

def decodeMethodPacket (header : MaxwellPushbufferWord) (mode : MaxwellMethodPacketMode)
    (words : WordStream ε) : Decoding ε (MaxwellDecodedPacket × WordStream ε) :=
  let count := methodCount mode header.value
  if count = 0 then
    .ok (.methods ⟨mode, header.location, none, []⟩, words)
  else if header.value &&& methodReservedBit ≠ 0 then
    .error (.reservedMethodBit header.location header.value)
  else do
    let first := (firstMethodDword header.value).toNat
    validateMethodRange header.location mode first count
    let subchannel := encodedSubchannel header.value
    if mode = .immediate then
      .ok (.methods ⟨mode, header.location, some subchannel,
        [⟨methodId first, encodedCount header.value, header.location⟩]⟩, words)
    else
      let (methods, words) ← decodeArguments header.location mode first count 0 count words
      .ok (.methods ⟨mode, header.location, some subchannel, methods⟩, words)

def decodePacket (header : MaxwellPushbufferWord) (words : WordStream ε) :
    Decoding ε (MaxwellDecodedPacket × WordStream ε) :=
  if header.value = 0 then .ok (.control .nop header.location, words)
  else
    let opcode := secondaryOpcode header.value
    if opcode = opcodeGroupZero then do
      let packet ← decodeGroupZeroControl header
      .ok (packet, words)
    else if opcode = opcodeEndSegment then .ok (.control .endSegment header.location, words)
    else
      match methodEncodings.find? (fun encoding ↦ encoding.1 == opcode) with
      | some encoding => decodeMethodPacket header encoding.2 words
      | none => .error (.unknownEncoding header.location header.value opcode)

def skipEntryTail (entryIndex : Nat) :
    WordStream ε → Decoding ε (WordStream ε)
  | [] => .ok []
  | .error error :: _ => .error (.source error)
  | .ok word :: words =>
    if word.location.entryIndex = entryIndex then skipEntryTail entryIndex words
    else .ok (.ok word :: words)

def MaxwellDecodedPacket.isEndSegment : MaxwellDecodedPacket → Bool
  | .control .endSegment _ => true
  | _ => false

/-- One turn of the loop of the decoder: a packet, and for an end-segment control the tail of its
entry. -/
def decodeStep (header : MaxwellPushbufferWord) (words : WordStream ε) :
    Decoding ε (MaxwellDecodedPacket × WordStream ε) := do
  let (packet, words) ← decodePacket header words
  if packet.isEndSegment then
    let words ← skipEntryTail header.location.entryIndex words
    .ok (packet, words)
  else .ok (packet, words)

/-! ### The loop ends -/

variable {words rest : WordStream ε} {header : MaxwellPushbufferWord}
  {packet : MaxwellDecodedPacket} {mode : MaxwellMethodPacketMode}

theorem length_decodeArguments {source : MaxwellGpfifoSourceLocation}
    {first count index remaining : Nat} {methods : List MaxwellDecodedMethod}
    (h : decodeArguments source mode first count index remaining words = .ok (methods, rest)) :
    rest.length ≤ words.length := by
  induction remaining generalizing index words methods with
  | zero =>
    cases h
    exact le_rfl
  | succ remaining ih =>
    match words, h with
    | [], h | .error _ :: _, h => cases h
    | .ok argument :: words, h =>
      obtain ⟨_, hnext, h⟩ := bind_eq_ok_iff.mp h
      cases hnext
      obtain ⟨⟨methods', rest'⟩, hrest, h⟩ := bind_eq_ok_iff.mp h
      cases h
      exact (ih hrest).trans (Nat.le_succ _)

theorem length_decodeMethodPacket (h : decodeMethodPacket header mode words = .ok (packet, rest)) :
    rest.length ≤ words.length := by
  rw [decodeMethodPacket] at h
  split at h
  · cases h
    exact le_rfl
  · obtain ⟨-, h⟩ := ite_error_eq_ok_iff.mp h
    obtain ⟨-, -, h⟩ := bind_eq_ok_iff.mp h
    split at h
    · cases h
      exact le_rfl
    · obtain ⟨⟨methods, rest'⟩, hrest, h⟩ := bind_eq_ok_iff.mp h
      cases h
      exact length_decodeArguments hrest

theorem length_decodePacket (h : decodePacket header words = .ok (packet, rest)) :
    rest.length ≤ words.length := by
  rw [decodePacket] at h
  split at h
  · cases h
    exact le_rfl
  · dsimp only at h
    split at h
    · obtain ⟨packet', -, h⟩ := bind_eq_ok_iff.mp h
      cases h
      exact le_rfl
    · split at h
      · cases h
        exact le_rfl
      · split at h
        · exact length_decodeMethodPacket h
        · cases h

theorem length_skipEntryTail {entryIndex : Nat} (h : skipEntryTail entryIndex words = .ok rest) :
    rest.length ≤ words.length := by
  fun_induction skipEntryTail entryIndex words with
  | case1 | case4 =>
    cases h
    exact le_rfl
  | case2 => cases h
  | case3 word words _ ih => exact (ih h).trans (Nat.le_succ _)

theorem length_decodeStep (h : decodeStep header words = .ok (packet, rest)) :
    rest.length ≤ words.length := by
  obtain ⟨⟨packet', words'⟩, hpacket, h⟩ := bind_eq_ok_iff.mp h
  have hle := length_decodePacket hpacket
  dsimp only at h
  split at h
  · obtain ⟨rest', hskip, h⟩ := bind_eq_ok_iff.mp h
    cases h
    exact (length_skipEntryTail hskip).trans hle
  · cases h
    exact hle

/-- `decode_maxwell_pushbuffer` -/
def decodeMaxwellPushbuffer :
    WordStream ε → Decoding ε (List MaxwellDecodedPacket)
  | [] => .ok []
  | .error error :: _ => .error (.source error)
  | .ok header :: words =>
    match h : decodeStep header words with
    | .error error => .error error
    | .ok (packet, rest) => do
      have : rest.length < words.length + 1 := Nat.lt_succ_of_le (length_decodeStep h)
      let packets ← decodeMaxwellPushbuffer rest
      .ok (packet :: packets)
termination_by words => words.length

end

/-! ## The words of a submission -/

section

variable {ε : Type}

open Method

/-- What the iterator asks of a submission and its address space: the indices of the pushbuffer
entries, their bytes, and the locations of their words. -/
structure PushbufferReader (ε : Type) where
  pushbuffers : List Nat
  readPushbuffer : Nat → Except ε (List UInt8)
  wordLocation : Nat → Nat → Except ε MaxwellGpfifoSourceLocation

/-- The iterator; `pending` are the entries that are not loaded. -/
structure SubmissionWords where
  pending : List Nat
  currentEntry : Nat
  currentBytes : List UInt8
  currentOffset : Nat
  failed : Bool

def SubmissionWords.new (reader : PushbufferReader ε) : SubmissionWords where
  pending := reader.pushbuffers
  currentEntry := 0
  currentBytes := []
  currentOffset := 0
  failed := false

/-- `while self.current_offset == self.current_bytes.len()`: load entries until there is a byte to
read; says whether there is one. -/
def SubmissionWords.load (reader : PushbufferReader ε) : List Nat → Method ε SubmissionWords Bool
  | [] => read fun words ↦ decide (words.currentOffset ≠ words.currentBytes.length)
  | entry :: pending => do
    if ← read fun words ↦ decide (words.currentOffset ≠ words.currentBytes.length) then pure true
    else do
      let bytes ← lift (reader.readPushbuffer entry)
      update fun words ↦ { words with
        pending := pending, currentEntry := entry, currentBytes := bytes, currentOffset := 0 }
      load reader pending

/-- `Iterator::next` -/
def SubmissionWords.next (reader : PushbufferReader ε) :
    Method Empty SubmissionWords (Option (Except ε MaxwellPushbufferWord)) := fun words ↦
  if words.failed then .ok none words
  else
    match load reader words.pending words with
    | .err error words => .ok (some (.error error)) { words with failed := true }
    | .panic message => .panic message
    | .ok false words => .ok none words
    | .ok true words =>
      if words.currentOffset + 4 ≤ words.currentBytes.length then
        let value := UInt32.ofNat
          (fromLittleEndian ((words.currentBytes.drop words.currentOffset).take 4))
        let advanced := { words with currentOffset := words.currentOffset + 4 }
        match reader.wordLocation words.currentEntry (words.currentOffset / 4) with
        | .ok location => .ok (some (.ok ⟨value, location⟩)) advanced
        | .error error => .ok (some (.error error)) { advanced with failed := true }
      else .panic "range end index out of range for slice"

/-- The items that the iterator yields until it ends. -/
inductive Yields (reader : PushbufferReader ε) : SubmissionWords → WordStream ε → Prop
  | done {words words' : SubmissionWords} (h : words.next reader = .ok none words') :
    Yields reader words []
  | item {words words' : SubmissionWords} {item : Except ε MaxwellPushbufferWord}
    {items : WordStream ε} (h : words.next reader = .ok (some item) words')
    (hrest : Yields reader words' items) : Yields reader words (item :: items)

end

end Nixe.Maxwell
