import Nixe.Effect.Fallible
import Nixe.Horizon.Cmif

/-!
# How much of a buffer the HIPC decoder reads

The header of a message says how long the message is (`declaredLength`). The decoder reads that
much of the buffer and nothing after it: a longer buffer decodes to the same request, and a buffer
that ends earlier is refused.

Every part of the decoder either fails or returns what the bytes before some offset determine. So
on a longer buffer it can only be more defined, and `Extends` goes through the statements of the
decoder one by one.
-/

namespace Nixe.Horizon

open List Extends HipcRequest

/-! ## Words -/

/-- The word at `offset` of a buffer that holds it. -/
def wordAt (raw : List UInt8) (offset : Nat) : Nat := fromLittleEndian ((raw.drop offset).take 4)

theorem addOffset_eq_ok_iff {left right sum : Nat} :
    addOffset left right = .ok sum ↔ left + right < wordBound ∧ left + right = sum := by
  rw [addOffset, ← checkedAdd_eq_some_iff]
  cases checkedAdd left right <;> simp

variable {raw : List UInt8} {offset : Nat} {request : HipcRequest} {size last : Nat}

theorem getLittleEndian_eq_ok_iff {value : Nat} {truncated : MessageError} :
    getLittleEndian raw offset size truncated = .ok value ↔
      offset + size < wordBound ∧ offset + size ≤ raw.length ∧
        fromLittleEndian ((raw.drop offset).take size) = value := by
  rw [getLittleEndian, bind_eq_ok_iff]
  simp only [addOffset_eq_ok_iff]
  constructor
  · rintro ⟨_, ⟨hbound, rfl⟩, h⟩
    split at h
    · rename_i hlast
      exact ⟨hbound, hlast, Except.ok.inj h⟩
    · cases h
  · rintro ⟨hbound, hlast, rfl⟩
    exact ⟨_, ⟨hbound, rfl⟩, if_pos hlast⟩

theorem getU32_eq_ok_iff {value : Nat} :
    getU32 raw offset = .ok value ↔
      offset + 4 < wordBound ∧ offset + 4 ≤ raw.length ∧ wordAt raw offset = value :=
  getLittleEndian_eq_ok_iff

theorem take_drop_append (h : offset + size ≤ raw.length) (extension : List UInt8) :
    ((raw ++ extension).drop offset).take size = (raw.drop offset).take size := by
  rw [drop_append_of_le_length (by omega),
    take_append_of_le_length (by rw [length_drop]; omega)]

theorem wordAt_append (h : offset + 4 ≤ raw.length) (extension : List UInt8) :
    wordAt (raw ++ extension) offset = wordAt raw offset := by
  rw [wordAt, take_drop_append h, wordAt]

/-! ## Longer buffers -/

section

variable {α : Type} (raw extension : List UInt8)

theorem extends_getLittleEndian (offset size : Nat) (truncated : MessageError) :
    Extends (getLittleEndian raw offset size truncated)
      (getLittleEndian (raw ++ extension) offset size truncated) := by
  intro value h
  rw [getLittleEndian_eq_ok_iff] at h ⊢
  obtain ⟨hbound, hlast, hvalue⟩ := h
  refine ⟨hbound, ?_, ?_⟩
  · rw [length_append]
    omega
  · rw [take_drop_append hlast, hvalue]

theorem extends_getU32 (offset : Nat) :
    Extends (getU32 raw offset) (getU32 (raw ++ extension) offset) :=
  extends_getLittleEndian raw extension offset 4 _

variable {raw extension} {entry entry' : Nat → Except MessageError α}

theorem extends_decodeEntries (h : ∀ offset, Extends (entry offset) (entry' offset))
    (size offset count : Nat) :
    Extends (decodeEntries entry size offset count) (decodeEntries entry' size offset count) := by
  induction count generalizing offset with
  | zero => exact .refl _
  | succ count ih =>
    refine (h offset).bind fun value ↦ bind (.refl _) fun next ↦ ?_
    exact (ih next).bind fun _ ↦ .refl _

theorem extends_decodeTable (h : ∀ offset, Extends (entry offset) (entry' offset))
    (size maximum : Nat) (reason : MessageError) (offset count : Nat) :
    Extends (decodeTable entry size maximum reason offset count)
      (decodeTable entry' size maximum reason offset count) := by
  rw [decodeTable, decodeTable]
  split
  · exact extends_decodeEntries h size offset count
  · exact .refl _

variable (raw extension)

theorem extends_decodeWords (offset count : Nat) :
    Extends (decodeWords raw offset count) (decodeWords (raw ++ extension) offset count) :=
  extends_decodeTable (extends_getU32 raw extension) 4 0xff _ offset count

/-- An entry that starts with two words. -/
theorem extends_two_words {f g : Nat → Nat → Except MessageError α}
    (h : ∀ first second, Extends (f first second) (g first second)) (offset : Nat) :
    Extends (do
        let first ← getU32 raw offset
        let second ← getU32 raw (← addOffset offset 4)
        f first second)
      (do
        let first ← getU32 (raw ++ extension) offset
        let second ← getU32 (raw ++ extension) (← addOffset offset 4)
        g first second) := by
  refine (extends_getU32 raw extension offset).bind fun first ↦ ?_
  refine bind (.refl _) fun next ↦ ?_
  exact (extends_getU32 raw extension next).bind fun second ↦ h first second

theorem extends_decodeSendStatics (offset count : Nat) :
    Extends (decodeSendStatics raw offset count)
      (decodeSendStatics (raw ++ extension) offset count) :=
  extends_decodeTable (extends_two_words raw extension fun _ _ ↦ .refl _) 8 15 _ offset count

theorem extends_decodeBuffers (offset count : Nat) :
    Extends (decodeBuffers raw offset count) (decodeBuffers (raw ++ extension) offset count) := by
  refine extends_decodeTable (fun offset ↦ ?_) 12 15 _ offset count
  refine extends_two_words raw extension (fun _ _ ↦ ?_) offset
  refine bind (.refl _) fun next ↦ ?_
  exact (extends_getU32 raw extension next).bind fun _ ↦ .refl _

theorem extends_decodeReceiveStatics (offset count : Nat) :
    Extends (decodeReceiveStatics raw offset count)
      (decodeReceiveStatics (raw ++ extension) offset count) :=
  extends_decodeTable (extends_two_words raw extension fun _ _ ↦ .refl _) 8 13 _ offset count

theorem extends_decodeSpecialHeader (word1 : Nat) :
    Extends (decodeSpecialHeader raw word1) (decodeSpecialHeader (raw ++ extension) word1) := by
  rw [decodeSpecialHeader, decodeSpecialHeader]
  split
  · exact .refl _
  · refine (extends_getU32 raw extension 8).bind fun special ↦ ?_
    refine ite id ?_
    split
    · exact (extends_getLittleEndian raw extension 12 8 _).bind fun _ ↦ .refl _
    · exact .refl _

theorem extends_decodeReceiveMode (mode offset : Nat) :
    Extends (decodeReceiveMode raw mode offset)
      (decodeReceiveMode (raw ++ extension) mode offset) := by
  match mode with
  | 0 | 1 | 2 => exact .refl _
  | mode + 3 =>
    exact (extends_decodeReceiveStatics raw extension offset (mode + 1)).bind fun _ ↦ .refl _

/-- A buffer that decodes does so to the same request if it is made longer, up to the size of a
command buffer. -/
theorem HipcRequest.extends_decode (h : (raw ++ extension).length ≤ commandBufferSize) :
    Extends (decode raw) (decode (raw ++ extension)) := by
  have hlonger {offset : Nat} : (raw ++ extension).length < offset → raw.length < offset := by
    rw [length_append]
    omega
  refine ite (fun h' ↦ absurd h (Nat.not_le.mpr h')) ?_
  refine (extends_getU32 raw extension 0).bind fun word0 ↦ ?_
  refine (extends_getU32 raw extension 4).bind fun word1 ↦ ite id ?_
  refine (extends_decodeSpecialHeader raw extension word1).bind
    fun ⟨pid, copyCount, moveCount, handleOffset⟩ ↦ ?_
  refine (extends_decodeWords raw extension _ _).bind fun ⟨copyHandles, offset⟩ ↦ ?_
  refine (extends_decodeWords raw extension _ _).bind fun ⟨moveHandles, offset⟩ ↦ ?_
  refine (extends_decodeSendStatics raw extension _ _).bind fun ⟨sendStatics, offset⟩ ↦ ?_
  refine (extends_decodeBuffers raw extension _ _).bind fun ⟨sendBuffers, offset⟩ ↦ ?_
  refine (extends_decodeBuffers raw extension _ _).bind fun ⟨receiveBuffers, offset⟩ ↦ ?_
  refine (extends_decodeBuffers raw extension _ _).bind fun ⟨exchangeBuffers, offset⟩ ↦ ?_
  refine bind (.refl _) fun dataEnd ↦ ite hlonger ?_
  refine (extends_decodeReceiveMode raw extension _ _).bind fun ⟨receiveStatics, last⟩ ↦ ?_
  exact ite hlonger (.refl _)

end

/-! ## The declared length -/

/-- The length of the special header with the process id and the handles. -/
def specialLength (raw : List UInt8) : Nat :=
  if wordAt raw 4 >>> 31 = 0 then 0
  else
    4 + 8 * (wordAt raw 8 % 2) + 4 * (field (wordAt raw 8) 1 4 + field (wordAt raw 8) 5 4)

/-- The length of the message, by the counts of its header. -/
def declaredLength (raw : List UInt8) : Nat :=
  8 + specialLength raw + 8 * field (wordAt raw 0) 16 4 +
    12 * (field (wordAt raw 0) 20 4 + field (wordAt raw 0) 24 4 + field (wordAt raw 0) 28 4) +
    4 * field (wordAt raw 4) 0 10 + 8 * (field (wordAt raw 4) 10 4 - 2)

theorem decodeEntries_end {α : Type} {entry : Nat → Except MessageError α} {count : Nat}
    {values : List α} (h : decodeEntries entry size offset count = .ok (values, last)) :
    last = offset + size * count := by
  induction count generalizing offset values with
  | zero =>
    cases h
    rw [Nat.mul_zero, Nat.add_zero]
  | succ count ih =>
    obtain ⟨value, -, h⟩ := bind_eq_ok_iff.mp h
    obtain ⟨next, hnext, h⟩ := bind_eq_ok_iff.mp h
    obtain ⟨⟨values', last'⟩, hrest, h⟩ := bind_eq_ok_iff.mp h
    cases h
    obtain ⟨-, rfl⟩ := addOffset_eq_ok_iff.mp hnext
    rw [ih hrest, Nat.mul_succ]
    omega

theorem decodeTable_end {α : Type} {entry : Nat → Except MessageError α} {maximum count : Nat}
    {reason : MessageError} {values : List α}
    (h : decodeTable entry size maximum reason offset count = .ok (values, last)) :
    last = offset + size * count := by
  rw [decodeTable] at h
  split at h
  · exact decodeEntries_end h
  · cases h

theorem decodeReceiveMode_end {mode : Nat} {statics : ReceiveStatics}
    (h : decodeReceiveMode raw mode offset = .ok (statics, last)) :
    last = offset + 8 * (mode - 2) := by
  match mode, h with
  | 0, h | 2, h =>
    cases h
    rfl
  | mode + 3, h =>
    obtain ⟨⟨entries, next⟩, hentries, h⟩ := bind_eq_ok_iff.mp h
    cases h
    exact decodeTable_end hentries

/-- The part of the message before its tables lies inside the buffer. -/
structure HeaderInside (raw : List UInt8) : Prop where
  words : 8 ≤ raw.length
  special : wordAt raw 4 >>> 31 ≠ 0 → 12 ≤ raw.length

theorem declaredLength_append (h : HeaderInside raw) (extension : List UInt8) :
    declaredLength (raw ++ extension) = declaredLength raw := by
  have hword0 : wordAt (raw ++ extension) 0 = wordAt raw 0 :=
    wordAt_append (by have := h.words; omega) extension
  have hword1 : wordAt (raw ++ extension) 4 = wordAt raw 4 := wordAt_append h.words extension
  have hspecial : specialLength (raw ++ extension) = specialLength raw := by
    rw [specialLength, specialLength, hword1]
    split
    · rfl
    · rename_i hne
      rw [wordAt_append (h.special hne) extension]
  rw [declaredLength, declaredLength, hword0, hword1, hspecial]

/-- The special header: where the handles are, and how many. -/
theorem decodeSpecialHeader_end {pid : Option Nat} {copyCount moveCount handleOffset : Nat}
    (h : decodeSpecialHeader raw (wordAt raw 4) = .ok (pid, copyCount, moveCount, handleOffset)) :
    (wordAt raw 4 >>> 31 ≠ 0 → 12 ≤ raw.length) ∧
      handleOffset + 4 * (copyCount + moveCount) = 8 + specialLength raw := by
  rw [decodeSpecialHeader] at h
  rw [specialLength]
  split at h
  · rename_i hzero
    cases h
    exact ⟨fun hne ↦ absurd hzero hne, by rw [if_pos hzero]⟩
  · rename_i hne
    rw [if_neg hne]
    obtain ⟨special, hspecial, h⟩ := bind_eq_ok_iff.mp h
    obtain ⟨-, hlast, rfl⟩ := getU32_eq_ok_iff.mp hspecial
    obtain ⟨-, h⟩ := ite_error_eq_ok_iff.mp h
    refine ⟨fun _ ↦ hlast, ?_⟩
    split at h
    · obtain ⟨value, -, h⟩ := bind_eq_ok_iff.mp h
      cases h
      omega
    · cases h
      omega

/-- What the decoder has checked of a buffer that it accepts. -/
structure Checked (raw : List UInt8) (request : HipcRequest) : Prop where
  size : raw.length ≤ commandBufferSize
  header : HeaderInside raw
  declared : declaredLength raw ≤ raw.length
  data : request.dataEnd ≤ raw.length

theorem HipcRequest.checked_of_decode (h : decode raw = .ok request) :
    Checked raw request := by
  obtain ⟨hsize, h⟩ := ite_error_eq_ok_iff.mp h
  obtain ⟨word0, hword0, h⟩ := bind_eq_ok_iff.mp h
  obtain ⟨word1, hword1, h⟩ := bind_eq_ok_iff.mp h
  obtain ⟨-, -, rfl⟩ := getU32_eq_ok_iff.mp hword0
  obtain ⟨-, hwords, rfl⟩ := getU32_eq_ok_iff.mp hword1
  obtain ⟨-, h⟩ := ite_error_eq_ok_iff.mp h
  obtain ⟨⟨pid, copyCount, moveCount, handleOffset⟩, hspecial, h⟩ := bind_eq_ok_iff.mp h
  obtain ⟨hinside, hhandles⟩ := decodeSpecialHeader_end hspecial
  obtain ⟨⟨copyHandles, copyEnd⟩, hcopy, h⟩ := bind_eq_ok_iff.mp h
  obtain ⟨⟨moveHandles, moveEnd⟩, hmove, h⟩ := bind_eq_ok_iff.mp h
  obtain ⟨⟨sendStatics, staticsEnd⟩, hstatics, h⟩ := bind_eq_ok_iff.mp h
  obtain ⟨⟨sendBuffers, sendEnd⟩, hsend, h⟩ := bind_eq_ok_iff.mp h
  obtain ⟨⟨receiveBuffers, receiveEnd⟩, hreceive, h⟩ := bind_eq_ok_iff.mp h
  obtain ⟨⟨exchangeBuffers, exchangeEnd⟩, hexchange, h⟩ := bind_eq_ok_iff.mp h
  obtain ⟨dataEnd, hdata, h⟩ := bind_eq_ok_iff.mp h
  obtain ⟨hdataEnd, h⟩ := ite_error_eq_ok_iff.mp h
  obtain ⟨⟨receiveStatics, last⟩, hmode, h⟩ := bind_eq_ok_iff.mp h
  obtain ⟨hlast, h⟩ := ite_error_eq_ok_iff.mp h
  cases h
  refine ⟨Nat.not_lt.mp hsize, ⟨hwords, hinside⟩, ?_, Nat.not_lt.mp hdataEnd⟩
  -- the tables follow each other, so the end of the last is the declared length
  have hcopyEnd := decodeTable_end hcopy
  have hmoveEnd := decodeTable_end hmove
  have hstaticsEnd := decodeTable_end hstatics
  have hsendEnd := decodeTable_end hsend
  have hreceiveEnd := decodeTable_end hreceive
  have hexchangeEnd := decodeTable_end hexchange
  have hdataSum := (addOffset_eq_ok_iff.mp hdata).2
  have hmodeEnd := decodeReceiveMode_end hmode
  rw [declaredLength]
  omega

/-- A buffer that ends before the declared length is refused. -/
theorem HipcRequest.decode_take {length : Nat} (hlength : length < declaredLength raw) :
    ∃ reason, decode (raw.take length) = .error reason := by
  cases hshort : decode (raw.take length) with
  | error reason => exact ⟨reason, rfl⟩
  | ok request' =>
    have hchecked := checked_of_decode hshort
    have hdeclared : declaredLength (raw.take length) = declaredLength raw := by
      rw [← declaredLength_append hchecked.header (raw.drop length), take_append_drop]
    have hle := hchecked.declared
    rw [hdeclared, length_take] at hle
    omega

/-! ## The data section -/

theorem HipcRequest.alignedData_eq_ok {start : Nat}
    (hstart : alignUp request.dataOffset 16 = .ok start) (hle : start ≤ request.dataEnd)
    (hend : request.dataEnd ≤ raw.length) :
    request.alignedData raw = .ok ((raw.take request.dataEnd).drop start) := by
  rw [alignedData, hstart, ok_bind, if_pos ⟨hle, hend⟩]

/-- The data words of a message do not depend on what follows it. -/
theorem HipcRequest.alignedData_append (h : request.dataEnd ≤ raw.length) (extension : List UInt8) :
    request.alignedData (raw ++ extension) = request.alignedData raw := by
  have hlonger : request.dataEnd ≤ (raw ++ extension).length := by
    rw [length_append]
    omega
  rw [alignedData, alignedData, take_append_of_le_length h]
  simp only [h, hlonger, and_true]

theorem CmifRequest.decode_append (h : request.dataEnd ≤ raw.length) (extension : List UInt8)
    (isDomain : Bool) :
    CmifRequest.decode (raw ++ extension) request isDomain =
      CmifRequest.decode raw request isDomain := by
  rw [CmifRequest.decode, CmifRequest.decode, alignedData_append h]

end Nixe.Horizon
