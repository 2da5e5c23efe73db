import Nixe.Horizon.HipcPrefix

/-!
# Encoded responses and the HIPC decoder

A response that `encode` accepts is laid out as a header, the tables that the header counts, zeros
up to a multiple of sixteen bytes, the CMIF message (`CmifResponse.body`) and zeros up to a whole
number of words. The encoder writes these parts from left to right into a zeroed buffer, so at any
moment the buffer is what was written, filled up with zeros (`filled`).

The decoder reads the same parts from left to right: a table that stands behind the bytes read so
far is decoded to its entries (`decodeEntries_flatMap`), whatever follows it.
-/

namespace Nixe.Horizon

open Method SendStaticDescriptor List

/-! ## Writing from left to right -/

/-- A buffer of `total` bytes of which the first ones are written. -/
def filled (total : Nat) (written : List UInt8) : List UInt8 :=
  written ++ List.replicate (total - written.length) 0

variable {total : Nat} {written : List UInt8}

theorem length_filled (h : written.length ≤ total) : (filled total written).length = total := by
  rw [filled, length_append, length_replicate]
  omega

/-- Zeros need not be written. -/
theorem filled_append_zeros {count : Nat} (h : written.length + count ≤ total) :
    filled total (written ++ List.replicate count 0) = filled total written := by
  rw [filled, filled, append_assoc, replicate_append_replicate, length_append,
    length_replicate]
  congr 2
  omega

theorem copyInto_filled {values : List UInt8} :
    copyInto values written.length (filled total written) = filled total (written ++ values) := by
  rw [copyInto, filled, filled, take_left, drop_append, drop_replicate,
    length_append, drop_eq_nil_of_le (by omega), nil_append]
  congr 2
  omega

section

variable {total : Nat} {written : List UInt8} {offset : Nat}
    {Q : Post MessageError (List UInt8) Unit}

theorem wp_putBytes {values : List UInt8} {reason : MessageError} (htotal : total < wordBound)
    (hoffset : offset = written.length) (hfits : written.length + values.length ≤ total)
    (hQ : Q.ok () (filled total (written ++ values))) :
    wp (putBytes reason offset values) Q (filled total written) := by
  subst hoffset
  have hadd : addOffset written.length values.length = .ok (written.length + values.length) :=
    addOffset_eq_ok_iff.mpr ⟨by omega, rfl⟩
  rw [putBytes, wp_bind, wp_lift, hadd]
  refine ⟨?_, nofun⟩
  rintro _ ⟨⟩
  simp only [wp_rules, copyInto_filled]
  rw [length_filled (by omega)]
  exact ⟨fun h ↦ absurd hfits (by omega), fun _ ↦ hQ⟩

theorem wp_putU32 {value : Nat} (htotal : total < wordBound) (hoffset : offset = written.length)
    (hfits : written.length + 4 ≤ total)
    (hQ : Q.ok () (filled total (written ++ toLittleEndian 4 value))) :
    wp (putU32 offset value) Q (filled total written) :=
  wp_putBytes htotal hoffset (by rwa [length_toLittleEndian]) hQ

/-- The table that a loop writes, if each turn writes an entry of it. -/
theorem wp_putEntries {α : Type} {put : Nat → α → Writer Unit} {size : Nat} {P : α → Prop}
    {encoded : α → List UInt8} (hsize : ∀ a, (encoded a).length = size)
    (hput : ∀ written a, written.length + size ≤ total →
      wp (put written.length a) ⟨fun _ t ↦ P a ∧ t = filled total (written ++ encoded a),
        fun _ _ ↦ True, False⟩ (filled total written))
    (entries : List α) (hoffset : offset = written.length)
    (hfits : written.length + size * entries.length ≤ total) :
    wp (putEntries put size offset entries)
      ⟨fun last t ↦ last = offset + size * entries.length ∧ (∀ a ∈ entries, P a) ∧
        t = filled total (written ++ entries.flatMap encoded), fun _ _ ↦ True, False⟩
      (filled total written) := by
  subst hoffset
  induction entries generalizing written with
  | nil =>
    refine ⟨rfl, nofun, ?_⟩
    rw [flatMap_nil, append_nil]
  | cons entry entries ih =>
    rw [length_cons, Nat.mul_succ] at hfits
    rw [putEntries, wp_bind]
    refine wp_of_ok (hput written entry (by omega)) ?_
    rintro _ _ ⟨hentry, rfl⟩
    have hlength : (written ++ encoded entry).length = written.length + size := by
      rw [length_append, hsize]
    rw [← hlength]
    refine wp_of_ok (ih (by omega)) ?_
    rintro last _ ⟨rfl, hentries, rfl⟩
    refine ⟨?_, forall_mem_cons.mpr ⟨hentry, hentries⟩, ?_⟩
    · rw [hlength, length_cons, Nat.mul_succ]
      omega
    · rw [flatMap_cons, append_assoc]

end

/-! ## The parts of a response -/

def wordBytes (word : UInt32) : List UInt8 := toLittleEndian 4 word.toNat

@[simp] theorem length_wordBytes (word : UInt32) : (wordBytes word).length = 4 :=
  length_toLittleEndian 4 word.toNat

def SendStaticDescriptor.bytes (descriptor : SendStaticDescriptor) : List UInt8 :=
  toLittleEndian 4 descriptor.first ++ toLittleEndian 4 (descriptor.address % 2 ^ 32)

@[simp] theorem SendStaticDescriptor.length_bytes (descriptor : SendStaticDescriptor) :
    descriptor.bytes.length = 8 := by
  simp [bytes]

/-- The fields of the descriptor fit into their bits. -/
def SendStaticDescriptor.Encodable (descriptor : SendStaticDescriptor) : Prop :=
  descriptor.address < 2 ^ 42 ∧ descriptor.index < 2 ^ 6

namespace CmifResponse

variable (response : CmifResponse)

def pidBytes : List UInt8 :=
  match response.pid with
  | some pid => toLittleEndian 8 pid.toNat
  | none => []

/-- The word that counts the handles. -/
def specialWord : Nat :=
  response.pid.isSome.toNat ||| response.copyHandles.length <<< 1 |||
    response.moveHandles.length <<< 5

def specialBytes : List UInt8 :=
  if response.hasSpecial then
    toLittleEndian 4 response.specialWord ++ response.pidBytes ++
      (response.copyHandles ++ response.moveHandles).flatMap wordBytes
  else []

/-- Everything before the data words. -/
def headerBytes (dataWords : Nat) : List UInt8 :=
  toLittleEndian 4 (response.sendStatics.length <<< 16) ++
    toLittleEndian 4 (dataWords ||| response.hasSpecial.toNat <<< 31) ++
    response.specialBytes ++ response.sendStatics.flatMap SendStaticDescriptor.bytes

/-- The domain header: the number of objects returned. -/
def domainHeader : List UInt8 :=
  if response.isDomain then
    toLittleEndian 4 response.domainObjects.length ++ List.replicate 12 0
  else []

def outHeader : List UInt8 :=
  toLittleEndian 4 cmifOutMagic ++ toLittleEndian 4 0 ++
    toLittleEndian 4 response.result.toNat ++ toLittleEndian 4 response.token.toNat

/-- The CMIF message: the headers, the payload and the ids of the objects. -/
def body : List UInt8 :=
  response.domainHeader ++ response.outHeader ++ response.data ++
    response.domainObjects.flatMap wordBytes

theorem length_flatMap_wordBytes (words : List UInt32) :
    (words.flatMap wordBytes).length = 4 * words.length := by
  simp [length_flatMap, Nat.mul_comm]

@[simp] theorem length_outHeader : response.outHeader.length = 16 := by simp [outHeader]

theorem length_domainHeader : response.domainHeader.length = response.isDomain.toNat * 16 := by
  rw [domainHeader]
  cases response.isDomain <;> simp

theorem length_pidBytes : response.pidBytes.length = response.pid.isSome.toNat * 8 := by
  rw [pidBytes]
  cases response.pid <;> simp

theorem length_headerBytes (dataWords : Nat) :
    (response.headerBytes dataWords).length =
      8 + response.specialBytes.length + 8 * response.sendStatics.length := by
  have hstatics : (response.sendStatics.flatMap bytes).length =
      8 * response.sendStatics.length := by
    simp [length_flatMap, Nat.mul_comm]
  simp only [headerBytes, length_append, length_toLittleEndian, hstatics]

theorem length_body :
    response.body.length = response.isDomain.toNat * 16 + 16 +
      (response.data.length + 4 * response.domainObjects.length) := by
  simp only [body, length_append, length_domainHeader, length_outHeader,
    length_flatMap_wordBytes]
  omega

/-! ## The layout -/

/-- What the sizes computed for a response are. -/
structure LaidOut (layout : ResponseLayout) : Prop where
  copyHandles : response.copyHandles.length ≤ 15
  moveHandles : response.moveHandles.length ≤ 15
  sendStatics : response.sendStatics.length ≤ 15
  hasSpecial : layout.hasSpecial = response.hasSpecial
  dataOffset : layout.dataOffset = (response.headerBytes layout.dataWords).length
  dataStart : layout.dataStart = (layout.dataOffset + 15) / 16 * 16
  dataWords : layout.dataWords ≤ 0x3ff
  body : layout.dataOffset + 16 + response.body.length ≤ layout.total
  total : layout.total = layout.dataOffset + 4 * layout.dataWords
  commandBuffer : layout.total ≤ commandBufferSize

theorem mulOffset_eq_ok_iff {left right product : Nat} :
    mulOffset left right = .ok product ↔ left * right < wordBound ∧ left * right = product := by
  rw [mulOffset, ← checkedMul_eq_some_iff]
  cases checkedMul left right <;> simp

theorem alignUp_eq_ok_iff {value alignment aligned : Nat} :
    alignUp value alignment = .ok aligned ↔
      value + (alignment - 1) < wordBound ∧
        (value + (alignment - 1)) / alignment * alignment = aligned := by
  rw [alignUp, checkedAdd]
  split <;> rename_i h <;> split at h <;> simp_all

theorem boundedCount_eq_ok_iff {count maximum : Nat} {reason : MessageError} {u : Unit} :
    boundedCount count maximum reason = .ok u ↔ count ≤ maximum := by
  rw [boundedCount]
  split <;> simp [*]

variable {response}

theorem specialSize_eq {size : Nat} (h : response.specialSize = .ok size) :
    size = response.specialBytes.length := by
  rw [specialSize] at h
  rw [specialBytes]
  split at h
  · rename_i hspecial
    obtain ⟨handles, hhandles, h⟩ := bind_eq_ok_iff.mp h
    obtain ⟨-, rfl⟩ := mulOffset_eq_ok_iff.mp hhandles
    cases h
    simp only [hspecial, if_true, length_append, length_toLittleEndian, length_pidBytes,
      length_flatMap_wordBytes]
    omega
  · rename_i hspecial
    cases h
    simp [hspecial]

theorem laidOut_of_layout {layout : ResponseLayout} (h : response.layout = .ok layout) :
    response.LaidOut layout := by
  obtain ⟨-, h⟩ := ite_error_eq_ok_iff.mp h
  obtain ⟨_, hcopy, h⟩ := bind_eq_ok_iff.mp h
  obtain ⟨_, hmove, h⟩ := bind_eq_ok_iff.mp h
  obtain ⟨_, hstatics, h⟩ := bind_eq_ok_iff.mp h
  obtain ⟨specialSize, hspecial, h⟩ := bind_eq_ok_iff.mp h
  obtain ⟨descriptorSize, hdescriptors, h⟩ := bind_eq_ok_iff.mp h
  obtain ⟨tables, htables, h⟩ := bind_eq_ok_iff.mp h
  obtain ⟨dataOffset, hoffset, h⟩ := bind_eq_ok_iff.mp h
  obtain ⟨dataStart, hstart, h⟩ := bind_eq_ok_iff.mp h
  obtain ⟨headers, hheaders, h⟩ := bind_eq_ok_iff.mp h
  obtain ⟨objects, hobjects, h⟩ := bind_eq_ok_iff.mp h
  obtain ⟨payload, hpayload, h⟩ := bind_eq_ok_iff.mp h
  obtain ⟨bodySize, hbody, h⟩ := bind_eq_ok_iff.mp h
  obtain ⟨reserved, hreserved, h⟩ := bind_eq_ok_iff.mp h
  obtain ⟨dataWordBytes, hwords, h⟩ := bind_eq_ok_iff.mp h
  obtain ⟨hlimit, h⟩ := ite_error_eq_ok_iff.mp h
  obtain ⟨total, htotal, h⟩ := bind_eq_ok_iff.mp h
  obtain ⟨hbuffer, h⟩ := ite_error_eq_ok_iff.mp h
  cases h
  rw [boundedCount_eq_ok_iff] at hcopy hmove hstatics
  have hspecialSize := specialSize_eq hspecial
  rw [mulOffset_eq_ok_iff] at hdescriptors hobjects
  rw [addOffset_eq_ok_iff] at htables hoffset hheaders hpayload hbody hreserved htotal
  rw [alignUp_eq_ok_iff] at hstart hwords
  have hheader := response.length_headerBytes (dataWordBytes / 4)
  have hlength := response.length_body
  exact {
    copyHandles := hcopy
    moveHandles := hmove
    sendStatics := hstatics
    hasSpecial := rfl
    dataOffset := by dsimp only; omega
    dataStart := by dsimp only; omega
    dataWords := Nat.not_lt.mp hlimit
    body := by dsimp only; omega
    total := by dsimp only; omega
    commandBuffer := Nat.not_lt.mp hbuffer }

end CmifResponse

/-! ## What the encoder writes -/

section

variable {total offset : Nat} {written : List UInt8}

theorem wp_putWord (htotal : total < wordBound) (written : List UInt8) (word : UInt32)
    (hfits : written.length + 4 ≤ total) :
    wp (putWord written.length word) ⟨fun _ t ↦ True ∧ t = filled total (written ++ wordBytes word),
      fun _ _ ↦ True, False⟩ (filled total written) :=
  wp_putU32 htotal rfl hfits ⟨trivial, rfl⟩

theorem wp_encodeSendStatic (htotal : total < wordBound) (written : List UInt8)
    (descriptor : SendStaticDescriptor) (hfits : written.length + 8 ≤ total) :
    wp (encodeSendStatic written.length descriptor)
      ⟨fun _ t ↦ descriptor.Encodable ∧ t = filled total (written ++ descriptor.bytes),
        fun _ _ ↦ True, False⟩ (filled total written) := by
  rw [encodeSendStatic, wp_bind, wp_failIf]
  refine ⟨fun _ ↦ trivial, fun h ↦ (wp_bind _ _).mpr ?_⟩
  refine wp_putU32 htotal rfl (by omega) ?_
  rw [not_or, ne_eq, not_not, Nat.shiftRight_eq_div_pow, Nat.div_eq_zero_iff] at h
  refine wp_putU32 htotal ?_ ?_ ⟨⟨by omega, by omega⟩, ?_⟩
  · rw [length_append, length_toLittleEndian]
  · rw [length_append, length_toLittleEndian]
    omega
  · rw [bytes, append_assoc]

variable {response : CmifResponse}

theorem CmifResponse.wp_putPid (htotal : total < wordBound) (hoffset : offset = written.length)
    (hfits : written.length + response.pidBytes.length ≤ total) :
    wp (putPid offset response.pid)
      ⟨fun last t ↦ last = (written ++ response.pidBytes).length ∧
        t = filled total (written ++ response.pidBytes), fun _ _ ↦ True, False⟩
      (filled total written) := by
  subst hoffset
  rw [length_append]
  rw [pidBytes] at hfits ⊢
  cases hpid : response.pid with
  | none =>
    rw [putPid]
    exact ⟨rfl, by rw [append_nil]⟩
  | some pid =>
    rw [hpid, length_toLittleEndian] at hfits
    rw [putPid, wp_bind]
    refine wp_putBytes htotal rfl (by rwa [length_toLittleEndian]) ⟨?_, rfl⟩
    rw [length_toLittleEndian]

theorem CmifResponse.wp_putSpecial (htotal : total < wordBound) (hoffset : offset = written.length)
    (hfits : written.length + response.specialBytes.length ≤ total) :
    wp (response.putSpecial offset)
      ⟨fun last t ↦ last = (written ++ response.specialBytes).length ∧
        t = filled total (written ++ response.specialBytes), fun _ _ ↦ True, False⟩
      (filled total written) := by
  subst hoffset
  rw [putSpecial]
  rw [specialBytes] at hfits ⊢
  split
  · rename_i hspecial
    simp only [hspecial, if_true, length_append, length_toLittleEndian,
      length_flatMap_wordBytes] at hfits ⊢
    refine (wp_bind _ _).mpr (wp_putU32 htotal rfl (by omega) ?_)
    refine (wp_bind _ _).mpr (wp_of_ok (wp_putPid htotal ?_ ?_) ?_)
    · rw [length_append, length_toLittleEndian]
    · rw [length_append, length_toLittleEndian]
      omega
    rintro _ _ ⟨rfl, rfl⟩
    refine wp_of_ok (wp_putEntries length_wordBytes (wp_putWord htotal)
      (response.copyHandles ++ response.moveHandles) rfl ?_) ?_
    · simp only [length_append, length_toLittleEndian]
      omega
    · rintro _ _ ⟨rfl, -, rfl⟩
      refine ⟨?_, ?_⟩
      · simp only [length_append, length_toLittleEndian]
        omega
      · simp only [append_assoc, specialWord]
  · rw [append_nil]
    exact ⟨rfl, rfl⟩

theorem CmifResponse.wp_putDomainHeader (htotal : total < wordBound)
    (hoffset : offset = written.length)
    (hfits : written.length + response.domainHeader.length ≤ total) :
    wp (response.putDomainHeader offset)
      ⟨fun last t ↦ last = (written ++ response.domainHeader).length ∧
        t = filled total (written ++ response.domainHeader), fun _ _ ↦ True, False⟩
      (filled total written) := by
  subst hoffset
  rw [putDomainHeader]
  rw [domainHeader] at hfits ⊢
  split
  · rename_i hdomain
    simp only [hdomain, if_true, length_append, length_toLittleEndian,
      length_replicate] at hfits ⊢
    rw [wp_bind, wp_failIf]
    refine ⟨fun _ ↦ trivial, fun _ ↦ (wp_bind _ _).mpr ?_⟩
    refine wp_putU32 htotal rfl (by omega) ⟨rfl, ?_⟩
    -- the rest of the domain header is never written
    rw [← append_assoc, filled_append_zeros]
    rw [length_append, length_toLittleEndian]
    omega
  · rw [append_nil]
    exact ⟨rfl, rfl⟩

theorem wp_copyPayload {data : List UInt8} {Q : Post MessageError (List UInt8) Unit}
    (hfits : written.length + data.length ≤ total) (hoffset : offset = written.length)
    (hQ : Q.ok () (filled total (written ++ data))) :
    wp (copyPayload offset (written.length + data.length) data) Q (filled total written) := by
  subst hoffset
  simp only [copyPayload, wp_rules, wp_assert, copyInto_filled]
  rw [length_filled (by omega)]
  refine ⟨fun _ ↦ hQ, fun h ↦ ?_⟩
  exact absurd hfits (of_decide_eq_false h)

/-- The CMIF message behind the domain header. -/
theorem CmifResponse.wp_putMessage (htotal : total < wordBound) (hoffset : offset = written.length)
    (hfits : written.length + 16 + response.data.length + 4 * response.domainObjects.length ≤
      total) :
    wp (response.putMessage offset)
      ⟨fun _ t ↦ t = filled total (written ++ response.outHeader ++ response.data ++
        response.domainObjects.flatMap wordBytes), fun _ _ ↦ True, False⟩
      (filled total written) := by
  subst hoffset
  have hlength : (written ++ response.outHeader).length = written.length + 16 := by
    rw [length_append, length_outHeader]
  rw [putMessage]
  refine (wp_bind _ _).mpr (wp_putU32 htotal rfl (by omega) ?_)
  refine (wp_bind _ _).mpr (wp_putU32 htotal (by simp) (by simp; omega) ?_)
  refine (wp_bind _ _).mpr (wp_putU32 htotal (by simp) (by simp; omega) ?_)
  refine (wp_bind _ _).mpr (wp_putU32 htotal (by simp) (by simp; omega) ?_)
  have houtHeader : written ++ toLittleEndian 4 cmifOutMagic ++ toLittleEndian 4 0 ++
      toLittleEndian 4 response.result.toNat ++ toLittleEndian 4 response.token.toNat =
      written ++ response.outHeader := by
    simp only [outHeader, append_assoc]
  rw [houtHeader, ← hlength]
  refine (wp_bind _ _).mpr ((wp_lift _).mpr ⟨?_, fun _ _ ↦ trivial⟩)
  intro payloadEnd hpayload
  obtain ⟨-, rfl⟩ := addOffset_eq_ok_iff.mp hpayload
  refine (wp_bind _ _).mpr (wp_copyPayload (by omega) rfl ?_)
  refine (wp_bind _ _).mpr (wp_of_ok (wp_putEntries length_wordBytes (wp_putWord htotal)
    response.domainObjects ?_ ?_) ?_)
  · exact length_append.symm
  · rw [length_append]
    omega
  · rintro _ _ ⟨-, -, rfl⟩
    rfl

/-- What `encode` returns: every part in its place, and zeros elsewhere. -/
theorem CmifResponse.wp_write {layout : ResponseLayout} (hlaid : response.LaidOut layout) :
    wp (response.write layout)
      ⟨fun _ bytes ↦ (∀ descriptor ∈ response.sendStatics, descriptor.Encodable) ∧
        bytes = filled layout.total (response.headerBytes layout.dataWords ++
          List.replicate (layout.dataStart - layout.dataOffset) 0 ++ response.body),
        fun _ _ ↦ True, False⟩ (filled layout.total []) := by
  have htotal : layout.total < wordBound := hlaid.commandBuffer.trans_lt (by decide)
  have hheader := response.length_headerBytes layout.dataWords
  have hoffset := hlaid.dataOffset
  have hstart := hlaid.dataStart
  have hbody := hlaid.body
  rw [write]
  refine (wp_bind _ _).mpr (wp_putU32 htotal rfl (by rw [length_nil]; omega) ?_)
  refine (wp_bind _ _).mpr (wp_putU32 htotal ?_ ?_ ?_)
  · simp only [nil_append, length_toLittleEndian]
  · simp only [nil_append, length_toLittleEndian]
    omega
  refine (wp_bind _ _).mpr (wp_of_ok (wp_putSpecial htotal ?_ ?_) ?_)
  · simp only [nil_append, length_append, length_toLittleEndian]
  · simp only [nil_append, length_append, length_toLittleEndian]
    omega
  rintro _ _ ⟨rfl, rfl⟩
  refine (wp_bind _ _).mpr (wp_of_ok (wp_putEntries length_bytes
    (wp_encodeSendStatic htotal) response.sendStatics rfl ?_) ?_)
  · simp only [nil_append, length_append, length_toLittleEndian]
    omega
  rintro _ _ ⟨rfl, hencodable, rfl⟩
  rw [hlaid.hasSpecial, nil_append]
  refine (wp_bind _ _).mpr ((wp_assert _ _).mpr ⟨fun _ ↦ ?_, fun h ↦ ?_⟩)
  · -- the bytes up to the first aligned one are left as they are
    have hpad : (response.headerBytes layout.dataWords).length +
        (layout.dataStart - layout.dataOffset) ≤ layout.total := by
      omega
    change wp _ _ (filled layout.total (response.headerBytes layout.dataWords))
    rw [← filled_append_zeros hpad]
    have hlength : (response.headerBytes layout.dataWords ++
        List.replicate (layout.dataStart - layout.dataOffset) 0).length = layout.dataStart := by
      rw [length_append, length_replicate]
      omega
    have hmessage := response.length_body
    have hdomain := response.length_domainHeader
    refine (wp_bind _ _).mpr (wp_of_ok (wp_putDomainHeader htotal hlength.symm (by omega)) ?_)
    rintro _ _ ⟨rfl, rfl⟩
    refine wp_of_ok (wp_putMessage htotal rfl ?_) ?_
    · rw [length_append]
      omega
    · rintro _ _ rfl
      refine ⟨hencodable, ?_⟩
      simp only [body, append_assoc]
  · rw [beq_eq_false_iff_ne] at h
    refine h ?_
    simp only [length_append, length_toLittleEndian]
    omega

/-- An accepted response: every part in its place, and zeros elsewhere. -/
theorem CmifResponse.wp_encode (s : List UInt8) :
    wp response.encode
      ⟨fun _ bytes ↦ ∃ layout, response.LaidOut layout ∧
        (∀ descriptor ∈ response.sendStatics, descriptor.Encodable) ∧
        bytes = filled layout.total (response.headerBytes layout.dataWords ++
          List.replicate (layout.dataStart - layout.dataOffset) 0 ++ response.body),
        fun _ _ ↦ True, False⟩ s := by
  rw [encode, wp_bind, wp_lift]
  refine ⟨fun layout hlayout ↦ ?_, fun _ _ ↦ trivial⟩
  have hempty : List.replicate layout.total 0 = filled layout.total [] := by
    rw [filled, nil_append, length_nil, Nat.sub_zero]
  refine (wp_bind _ _).mpr ((wp_update _).mpr ?_)
  rw [hempty]
  have hlaid := laidOut_of_layout hlayout
  exact wp_of_ok (wp_write hlaid) (fun _ _ h ↦ ⟨layout, hlaid, h⟩)

end

/-! ## Reading from left to right -/

section

variable {raw before after : List UInt8} {offset size : Nat} {truncated : MessageError}

theorem getLittleEndian_of_split {chunk : List UInt8} (hbound : raw.length < wordBound)
    (hraw : raw = before ++ chunk ++ after) (hoffset : offset = before.length)
    (hsize : chunk.length = size) :
    getLittleEndian raw offset size truncated = .ok (fromLittleEndian chunk) := by
  subst hraw hoffset hsize
  rw [length_append, length_append] at hbound
  refine getLittleEndian_eq_ok_iff.mpr ⟨by omega, ?_, ?_⟩
  · rw [length_append, length_append]
    omega
  · rw [append_assoc, drop_left, take_left]

theorem getValue_of_split {value : Nat} (hbound : raw.length < wordBound)
    (hraw : raw = before ++ toLittleEndian size value ++ after) (hoffset : offset = before.length)
    (hvalue : value < 256 ^ size) : getLittleEndian raw offset size truncated = .ok value := by
  rw [getLittleEndian_of_split hbound hraw hoffset (length_toLittleEndian size value),
    fromLittleEndian_toLittleEndian, Nat.mod_eq_of_lt hvalue]

theorem getU32_of_split {value : Nat} (hbound : raw.length < wordBound)
    (hraw : raw = before ++ toLittleEndian 4 value ++ after) (hoffset : offset = before.length)
    (hvalue : value < 2 ^ 32) : getU32 raw offset = .ok value :=
  getValue_of_split hbound hraw hoffset (by simpa using hvalue)

/-- A table behind the bytes read so far is decoded to its entries. -/
theorem decodeEntries_flatMap {α β : Type} {entry : Nat → Except MessageError β}
    {encoded : α → List UInt8} (decoded : α → β) (hbound : raw.length < wordBound)
    (hsize : ∀ a, (encoded a).length = size) (entries : List α)
    (hentry : ∀ a ∈ entries, ∀ before after, raw = before ++ encoded a ++ after →
      entry before.length = .ok (decoded a))
    (hraw : raw = before ++ entries.flatMap encoded ++ after) (hoffset : offset = before.length) :
    decodeEntries entry size offset entries.length =
      .ok (entries.map decoded, (before ++ entries.flatMap encoded).length) := by
  subst hoffset
  induction entries generalizing before with
  | nil => rw [flatMap_nil, append_nil]; rfl
  | cons a entries ih =>
    have hsplit : raw = (before ++ encoded a) ++ entries.flatMap encoded ++ after := by
      rw [hraw, flatMap_cons, ← append_assoc]
    have hhead : entry before.length = .ok (decoded a) := by
      refine hentry a mem_cons_self before (entries.flatMap encoded ++ after) ?_
      rw [hsplit, append_assoc, append_assoc]
    have hnext : addOffset before.length size = .ok (before ++ encoded a).length := by
      rw [hsplit, length_append, length_append] at hbound
      rw [addOffset_eq_ok_iff, ← hsize a, ← length_append]
      exact ⟨by omega, rfl⟩
    rw [length_cons, decodeEntries, hhead, ok_bind, hnext, ok_bind,
      ih (fun b hb ↦ hentry b (mem_cons_of_mem a hb)) hsplit, ok_bind, map_cons,
      flatMap_cons, append_assoc]

theorem decodeWords_of_split (hbound : raw.length < wordBound) (words : List UInt32)
    (hcount : words.length ≤ 0xff) (hraw : raw = before ++ words.flatMap wordBytes ++ after)
    (hoffset : offset = before.length) :
    decodeWords raw offset words.length =
      .ok (words.map UInt32.toNat, (before ++ words.flatMap wordBytes).length) := by
  rw [decodeWords, decodeTable, if_pos hcount]
  refine decodeEntries_flatMap UInt32.toNat hbound length_wordBytes words ?_ hraw hoffset
  intro word _ before after hraw
  exact getU32_of_split hbound hraw rfl word.toNat_lt

end

/-! ## Packed fields -/

theorem or_shiftLeft_eq_add {low shift : Nat} (h : low < 2 ^ shift) (high : Nat) :
    low ||| high <<< shift = low + 2 ^ shift * high := by
  rw [Nat.or_comm, Nat.shiftLeft_eq, Nat.mul_comm, ← Nat.two_pow_add_eq_or_of_lt h, Nat.add_comm]

/-- The fields of a word that is packed like the first word of a descriptor. -/
theorem fields_of_sum {index top middle : Nat} (hindex : index < 2 ^ 6) (htop : top < 2 ^ 6)
    (hmiddle : middle < 2 ^ 4) (size : Nat) :
    let first := index + 2 ^ 6 * top + 2 ^ 12 * middle + 2 ^ 16 * size
    first / 2 ^ 12 % 2 ^ 4 = middle ∧ first / 2 ^ 6 % 2 ^ 6 = top ∧ first % 0x40 = index ∧
      first / 2 ^ 16 = size := by
  omega

namespace SendStaticDescriptor

variable {descriptor : SendStaticDescriptor}

theorem first_eq (h : descriptor.Encodable) :
    descriptor.first = descriptor.index + 2 ^ 6 * (descriptor.address / 2 ^ 36 % 0x40) +
      2 ^ 12 * (descriptor.address / 2 ^ 32 % 0x10) + 2 ^ 16 * descriptor.size := by
  obtain ⟨haddress, hindex⟩ := h
  have hlow : descriptor.index + 2 ^ 6 * (descriptor.address / 2 ^ 36 % 0x40) < 2 ^ 12 := by
    omega
  have hlow' : descriptor.index + 2 ^ 6 * (descriptor.address / 2 ^ 36 % 0x40) +
      2 ^ 12 * (descriptor.address / 2 ^ 32 % 0x10) < 2 ^ 16 := by
    omega
  rw [first, Nat.shiftRight_eq_div_pow, Nat.shiftRight_eq_div_pow, or_shiftLeft_eq_add hindex,
    or_shiftLeft_eq_add hlow, or_shiftLeft_eq_add hlow']

theorem first_lt (hfits : descriptor.Fits) (h : descriptor.Encodable) :
    descriptor.first < 2 ^ 32 := by
  have hsize := hfits.size
  have hindex := h.2
  rw [first_eq h]
  omega

/-- The words of an encodable descriptor determine it. -/
theorem fields_eq (h : descriptor.Encodable) :
    ({ address := descriptor.address % 2 ^ 32 ||| (field descriptor.first 12 4 <<< 32) |||
          (field descriptor.first 6 6 <<< 36)
       size := descriptor.first >>> 16
       index := descriptor.first % 0x40 } : SendStaticDescriptor) = descriptor := by
  obtain ⟨haddress, hindex⟩ := id h
  have htop : descriptor.address / 2 ^ 36 % 0x40 < 2 ^ 6 := Nat.mod_lt _ (by decide)
  have hmiddle : descriptor.address / 2 ^ 32 % 0x10 < 2 ^ 4 := Nat.mod_lt _ (by decide)
  have hlower : descriptor.address % 2 ^ 32 +
      2 ^ 32 * (descriptor.address / 2 ^ 32 % 0x10) < 2 ^ 36 := by
    omega
  have hsum : descriptor.address % 2 ^ 32 + 2 ^ 32 * (descriptor.address / 2 ^ 32 % 0x10) +
      2 ^ 36 * (descriptor.address / 2 ^ 36 % 0x40) = descriptor.address := by
    omega
  obtain ⟨hfield12, hfield6, hlow, hhigh⟩ := fields_of_sum hindex htop hmiddle descriptor.size
  rw [field, field, Nat.shiftRight_eq_div_pow, Nat.shiftRight_eq_div_pow,
    Nat.shiftRight_eq_div_pow, first_eq h, hfield12, hfield6, hlow, hhigh,
    or_shiftLeft_eq_add (Nat.mod_lt _ (by decide)), or_shiftLeft_eq_add hlower, hsum]

end SendStaticDescriptor

theorem decodeSendStatics_of_split {raw before after : List UInt8} {offset : Nat}
    (hbound : raw.length < wordBound) {statics : List SendStaticDescriptor}
    (hcount : statics.length ≤ 15) (hfits : ∀ descriptor ∈ statics, descriptor.Fits)
    (hencodable : ∀ descriptor ∈ statics, descriptor.Encodable)
    (hraw : raw = before ++ statics.flatMap SendStaticDescriptor.bytes ++ after)
    (hoffset : offset = before.length) :
    decodeSendStatics raw offset statics.length =
      .ok (statics, (before ++ statics.flatMap SendStaticDescriptor.bytes).length) := by
  rw [decodeSendStatics, decodeTable, if_pos hcount]
  refine (decodeEntries_flatMap id hbound length_bytes statics ?_ hraw
    hoffset).trans (by rw [map_id])
  intro descriptor hmem before after hraw
  have hdescriptor := hencodable descriptor hmem
  rw [bytes, ← append_assoc] at hraw
  have hsplit : raw = before ++ toLittleEndian 4 descriptor.first ++
      (toLittleEndian 4 (descriptor.address % 2 ^ 32) ++ after) := by
    rw [hraw, append_assoc]
  have hfirst : getU32 raw before.length = .ok descriptor.first :=
    getU32_of_split hbound hsplit rfl
      (first_lt (hfits descriptor hmem) hdescriptor)
  have hnext : addOffset before.length 4 = .ok (before.length + 4) := by
    rw [hsplit, length_append, length_append, length_toLittleEndian] at hbound
    exact addOffset_eq_ok_iff.mpr ⟨by omega, rfl⟩
  have hlow : getU32 raw (before.length + 4) = .ok (descriptor.address % 2 ^ 32) := by
    refine getU32_of_split hbound hraw ?_ (Nat.mod_lt _ (by decide))
    rw [length_append, length_toLittleEndian]
  rw [hfirst, ok_bind, hnext, ok_bind, hlow, ok_bind, fields_eq hdescriptor]
  rfl

/-! ## Decoding a response -/

namespace CmifResponse

variable (response : CmifResponse)

/-- The special header without the handles. -/
def specialHead : List UInt8 :=
  if response.hasSpecial then toLittleEndian 4 response.specialWord ++ response.pidBytes else []

theorem specialBytes_eq :
    response.specialBytes = response.specialHead ++
      response.copyHandles.flatMap wordBytes ++ response.moveHandles.flatMap wordBytes := by
  rw [specialBytes, specialHead]
  split
  · simp only [flatMap_append, append_assoc]
  · rename_i h
    obtain ⟨⟨-, hcopy⟩, hmove⟩ : (response.pid = none ∧ response.copyHandles = []) ∧
        response.moveHandles = [] := by
      simpa [hasSpecial] using h
    rw [hcopy, hmove]
    rfl

variable {response}

theorem decodeSpecialHeader_of_split {raw before after : List UInt8} {word1 : Nat}
    (hbound : raw.length < wordBound) (hcopy : response.copyHandles.length ≤ 15)
    (hmove : response.moveHandles.length ≤ 15) (hword1 : word1 >>> 31 = response.hasSpecial.toNat)
    (hraw : raw = before ++ response.specialHead ++ after) (hbefore : before.length = 8) :
    decodeSpecialHeader raw word1 = .ok (response.pid.map UInt64.toNat,
      response.copyHandles.length, response.moveHandles.length,
      (before ++ response.specialHead).length) := by
  rw [decodeSpecialHeader, hword1]
  rw [specialHead] at hraw ⊢
  cases hspecial : response.hasSpecial with
  | false =>
    obtain ⟨⟨hpid, hcopy⟩, hmove⟩ : (response.pid = none ∧ response.copyHandles = []) ∧
        response.moveHandles = [] := by
      simpa [hasSpecial] using hspecial
    rw [hpid, hcopy, hmove]
    simp [hbefore]
  | true =>
    rw [hspecial, if_pos rfl, ← append_assoc] at hraw
    rw [if_neg (by decide)]
    have hpid : response.pid.isSome.toNat < 2 ^ 1 := by cases response.pid <;> simp
    have hword : response.specialWord = response.pid.isSome.toNat +
        2 ^ 1 * response.copyHandles.length + 2 ^ 5 * response.moveHandles.length := by
      have hlow : response.pid.isSome.toNat + 2 ^ 1 * response.copyHandles.length < 2 ^ 5 := by
        omega
      rw [specialWord, or_shiftLeft_eq_add hpid, or_shiftLeft_eq_add hlow]
    have hsplit : raw = before ++ toLittleEndian 4 response.specialWord ++
        (response.pidBytes ++ after) := by
      rw [hraw, append_assoc]
    rw [getU32_of_split hbound hsplit hbefore.symm (by omega), ok_bind]
    have hpadding : response.specialWord >>> 9 = 0 := by
      rw [Nat.shiftRight_eq_div_pow]
      omega
    have hcopyField : field response.specialWord 1 4 = response.copyHandles.length := by
      rw [field, Nat.shiftRight_eq_div_pow]
      omega
    have hmoveField : field response.specialWord 5 4 = response.moveHandles.length := by
      rw [field, Nat.shiftRight_eq_div_pow]
      omega
    have hsent : response.specialWord % 2 = response.pid.isSome.toNat := by omega
    rw [if_neg (not_not.mpr hpadding), hcopyField, hmoveField, hsent]
    rw [pidBytes] at hraw ⊢
    cases hvalue : response.pid with
    | none => simp [hbefore]
    | some pid =>
      rw [hvalue] at hraw
      have hget : getU64 raw 12 = .ok pid.toNat := by
        refine getValue_of_split hbound hraw ?_ (by simpa using pid.toNat_lt)
        rw [length_append, length_toLittleEndian, hbefore]
      simp [hget, ok_bind, hbefore]

theorem decodeBuffers_zero (raw : List UInt8) (offset : Nat) :
    decodeBuffers raw offset 0 = .ok ([], offset) := rfl

/-- The fields of the second header word. -/
theorem word1_fields {dataWords : Nat} (h : dataWords ≤ 0x3ff) (special : Bool) :
    let word1 := dataWords ||| special.toNat <<< 31
    word1 < 2 ^ 32 ∧ word1 >>> 31 = special.toNat ∧ field word1 0 10 = dataWords ∧
      field word1 10 4 = 0 ∧ field word1 14 6 = 0 := by
  have hspecial : special.toNat < 2 := special.toNat_lt
  dsimp only [field]
  rw [or_shiftLeft_eq_add (by omega)]
  simp only [Nat.shiftRight_eq_div_pow]
  omega

/-- The fields of the first header word. -/
theorem word0_fields {count : Nat} (h : count ≤ 15) :
    let word0 := count <<< 16
    word0 < 2 ^ 32 ∧ word0 % 0x10000 = 0 ∧ field word0 16 4 = count ∧ field word0 20 4 = 0 ∧
      field word0 24 4 = 0 ∧ field word0 28 4 = 0 := by
  dsimp only [field]
  simp only [Nat.shiftLeft_eq, Nat.shiftRight_eq_div_pow]
  omega

/-- The request that the HIPC layer sees in a response with the data words at `dataOffset`. -/
def asRequest (response : CmifResponse) (dataOffset dataWords : Nat) : HipcRequest where
  commandType := 0
  pid := response.pid.map UInt64.toNat
  copyHandles := response.copyHandles.map UInt32.toNat
  moveHandles := response.moveHandles.map UInt32.toNat
  sendStatics := response.sendStatics
  sendBuffers := []
  receiveBuffers := []
  exchangeBuffers := []
  receiveStatics := .absent
  handleOffset := 8 + response.specialHead.length
  dataOffset := dataOffset
  dataEnd := dataOffset + 4 * dataWords

variable {layout : ResponseLayout}

/-- The HIPC layer reads the header and the tables of a response back. -/
theorem decode_headerBytes (hlaid : response.LaidOut layout)
    (hencodable : ∀ descriptor ∈ response.sendStatics, descriptor.Encodable) {data : List UInt8}
    (hdata : data.length = 4 * layout.dataWords) :
    HipcRequest.decode (response.headerBytes layout.dataWords ++ data) =
      .ok (response.asRequest layout.dataOffset layout.dataWords) := by
  obtain ⟨hword0, hcommand, hstatics, hsend, hreceive, hexchange⟩ := word0_fields hlaid.sendStatics
  obtain ⟨hword1, hspecial, hwords, hmode, hpadding⟩ :=
    word1_fields hlaid.dataWords response.hasSpecial
  have hlength : (response.headerBytes layout.dataWords ++ data).length = layout.total := by
    rw [length_append, hdata, hlaid.total, hlaid.dataOffset]
  have hbound : (response.headerBytes layout.dataWords ++ data).length < wordBound := by
    rw [hlength]
    exact hlaid.commandBuffer.trans_lt (by decide)
  have hdataOffset := hlaid.dataOffset
  have htotal := hlaid.total
  -- the parts of the buffer, each with what stands before and behind it
  obtain ⟨raw, hraw⟩ : ∃ raw, raw = response.headerBytes layout.dataWords ++ data := ⟨_, rfl⟩
  rw [← hraw] at hlength hbound ⊢
  rw [headerBytes, specialBytes_eq, ← append_assoc, ← append_assoc] at hraw hdataOffset
  have hmoved := hraw.trans (append_assoc _ _ _)
  have hcopied := hmoved.trans (append_assoc _ _ _)
  have hheaded := hcopied.trans (append_assoc _ _ _)
  have hsecond := hheaded.trans (append_assoc _ _ _)
  have hfirst := hsecond.trans (append_assoc _ _ _)
  have hget0 : getU32 raw 0 = .ok (response.sendStatics.length <<< 16) :=
    @getU32_of_split raw [] _ 0 _ hbound hfirst rfl hword0
  have hget1 := getU32_of_split hbound hsecond (length_toLittleEndian 4 _).symm hword1
  have hhead := decodeSpecialHeader_of_split hbound hlaid.copyHandles hlaid.moveHandles hspecial
    hheaded (by simp)
  have hcopy := decodeWords_of_split hbound response.copyHandles
    (hlaid.copyHandles.trans (by decide)) hcopied rfl
  have hmove := decodeWords_of_split hbound response.moveHandles
    (hlaid.moveHandles.trans (by decide)) hmoved rfl
  have hstaticTable := decodeSendStatics_of_split hbound hlaid.sendStatics
    response.sendStatics_fit hencodable hraw rfl
  rw [← hdataOffset] at hstaticTable
  have hdataEnd : addOffset layout.dataOffset (layout.dataWords * 4) = .ok layout.total := by
    rw [addOffset_eq_ok_iff]
    omega
  rw [HipcRequest.decode, if_neg (by rw [hlength]; exact Nat.not_lt.mpr hlaid.commandBuffer),
    hget0, ok_bind, hget1, ok_bind, if_neg (not_not.mpr hpadding), hhead, ok_bind]
  dsimp only
  rw [hcopy, ok_bind]
  dsimp only
  rw [hmove, ok_bind, hstatics]
  rw [hstaticTable, ok_bind, hsend, hreceive, hexchange]
  dsimp only [decodeBuffers_zero, ok_bind]
  rw [hwords, hdataEnd, ok_bind, if_neg (by omega), hmode, decodeReceiveMode, ok_bind]
  rw [if_neg (by omega), hcommand, asRequest, htotal, length_append, length_append,
    length_toLittleEndian, length_toLittleEndian]

/-- The aligned data section of an accepted response is its CMIF message, up to zeros. -/
theorem alignedData_eq (hlaid : response.LaidOut layout) :
    ∃ padding, (response.asRequest layout.dataOffset layout.dataWords).alignedData
      (filled layout.total (response.headerBytes layout.dataWords ++
        List.replicate (layout.dataStart - layout.dataOffset) 0 ++ response.body)) =
      .ok (response.body ++ List.replicate padding 0) := by
  have hdataOffset := hlaid.dataOffset
  have hdataStart := hlaid.dataStart
  have hbody := hlaid.body
  have htotal := hlaid.total
  have hbuffer : layout.total < wordBound := hlaid.commandBuffer.trans_lt (by decide)
  have hstart : alignUp layout.dataOffset 16 = .ok layout.dataStart := by
    rw [alignUp_eq_ok_iff]
    omega
  have hlength : (response.headerBytes layout.dataWords ++
      List.replicate (layout.dataStart - layout.dataOffset) 0).length = layout.dataStart := by
    rw [length_append, length_replicate]
    omega
  have hfilled : (filled layout.total (response.headerBytes layout.dataWords ++
      List.replicate (layout.dataStart - layout.dataOffset) 0 ++ response.body)).length =
      layout.total := by
    refine length_filled ?_
    rw [length_append]
    omega
  refine ⟨layout.total - (layout.dataStart + response.body.length), ?_⟩
  have hend : (response.asRequest layout.dataOffset layout.dataWords).dataEnd = layout.total :=
    htotal.symm
  rw [HipcRequest.alignedData_eq_ok hstart (by omega) (by omega), hend,
    take_of_length_le (by omega), filled, append_assoc,
    drop_append_of_le_length (by omega), drop_of_length_le (by omega), nil_append,
    length_append, hlength]

end CmifResponse

/-! ## The codec -/

/-- **Round trip.** The HIPC layer decodes every response that `encode` accepts to the handles,
the static buffers and the CMIF message it was made of. **Prefixes.** A buffer that it accepts may
be made longer, up to the size of a command buffer, without a change of the request; cut before
the declared length it is refused. -/
theorem hipc_decode_inverts_encode :
    (∀ (response : CmifResponse) (buffer bytes : List UInt8),
      response.encode buffer = .ok () bytes →
      ∃ request, HipcRequest.decode bytes = .ok request ∧
        request.pid = response.pid.map UInt64.toNat ∧
        request.copyHandles = response.copyHandles.map UInt32.toNat ∧
        request.moveHandles = response.moveHandles.map UInt32.toNat ∧
        request.sendStatics = response.sendStatics ∧
        request.sendBuffers = [] ∧ request.receiveBuffers = [] ∧ request.exchangeBuffers = [] ∧
        request.receiveStatics = .absent ∧
        ∃ padding, request.alignedData bytes =
          .ok (response.body ++ List.replicate padding 0)) ∧
    (∀ raw request, HipcRequest.decode raw = .ok request →
      (∀ extension, (raw ++ extension).length ≤ commandBufferSize →
        HipcRequest.decode (raw ++ extension) = .ok request ∧
        request.alignedData (raw ++ extension) = request.alignedData raw ∧
        ∀ isDomain, CmifRequest.decode (raw ++ extension) request isDomain =
          CmifRequest.decode raw request isDomain) ∧
      (∀ extension, commandBufferSize < (raw ++ extension).length →
        HipcRequest.decode (raw ++ extension) =
          .error "HIPC command buffer exceeds 0x100 bytes") ∧
      ∀ length, length < declaredLength raw →
        ∃ reason, HipcRequest.decode (raw.take length) = .error reason) := by
  refine ⟨fun response buffer bytes hencode ↦ ?_, fun raw request hdecode ↦ ⟨?_, ?_, ?_⟩⟩
  · obtain ⟨layout, hlaid, hencodable, rfl⟩ := ok_of_wp (CmifResponse.wp_encode buffer) hencode
    refine ⟨response.asRequest layout.dataOffset layout.dataWords, ?_, rfl, rfl, rfl, rfl, rfl, rfl,
      rfl, rfl, CmifResponse.alignedData_eq hlaid⟩
    rw [filled, append_assoc, append_assoc]
    refine CmifResponse.decode_headerBytes hlaid hencodable ?_
    have hdataOffset := hlaid.dataOffset
    have hdataStart := hlaid.dataStart
    have hbody := hlaid.body
    have htotal := hlaid.total
    simp only [length_append, length_replicate]
    omega
  · intro extension hlength
    have hdata := (HipcRequest.checked_of_decode hdecode).data
    exact ⟨HipcRequest.extends_decode raw extension hlength request hdecode,
      HipcRequest.alignedData_append hdata extension,
      CmifRequest.decode_append hdata extension⟩
  · intro extension hlength
    rw [HipcRequest.decode, if_pos hlength]
  · exact fun length ↦ HipcRequest.decode_take

/-- A domain response with a process id, two handles, a static buffer and two objects. -/
def domainResponse : CmifResponse where
  token := 7
  data := [0, 1]
  pid := some 0x1234
  copyHandles := [0x41]
  moveHandles := [0x42]
  sendStatics := [⟨0x12345678, 0x20, 1⟩]
  isDomain := true
  domainObjects := [0x51, 0x52]
  sendStatics_fit := by
    intro descriptor h
    rw [mem_singleton.mp h]
    exact ⟨by decide, by decide, by decide⟩

theorem hipc_decode_inverts_encode_domain :
    ∃ bytes request padding,
      domainResponse.encode [] = .ok () bytes ∧
      HipcRequest.decode bytes = .ok request ∧ request.copyHandles = [0x41] ∧
      request.moveHandles = [0x42] ∧
      request.alignedData bytes = .ok ([2, 0, 0, 0, 0, 0, 0, 0, 0, 0, 0, 0, 0, 0, 0, 0,
        0x53, 0x46, 0x43, 0x4f, 0, 0, 0, 0, 0, 0, 0, 0, 7, 0, 0, 0,
        0, 1, 0x51, 0, 0, 0, 0x52, 0, 0, 0] ++ List.replicate padding 0) := by
  have hencode : domainResponse.encode [] = .ok () (filled 96 (domainResponse.headerBytes 15 ++
      List.replicate 12 0 ++ domainResponse.body)) := by
    decide +kernel
  obtain ⟨request, hdecode, -, hcopy, hmove, -, -, -, -, -, padding, hdata⟩ :=
    hipc_decode_inverts_encode.1 _ [] _ hencode
  exact ⟨_, request, padding, hencode, hdecode, hcopy, hmove, hdata⟩

/-- A header without tables is accepted alone, and refused at the front of a buffer of `0x101`
bytes. -/
theorem hipc_decode_refuses_extension :
    (∃ request, HipcRequest.decode (List.replicate 8 0) = .ok request) ∧
      ∃ reason, HipcRequest.decode (List.replicate 8 0 ++ List.replicate 0xf9 0) =
        .error reason := by
  refine ⟨⟨{ commandType := 0, pid := none, copyHandles := [], moveHandles := [],
             sendStatics := [], sendBuffers := [], receiveBuffers := [], exchangeBuffers := [],
             receiveStatics := .absent, handleOffset := 8, dataOffset := 8, dataEnd := 8 }, ?_⟩,
    "HIPC command buffer exceeds 0x100 bytes", ?_⟩
  · decide +kernel
  · decide +kernel

end Nixe.Horizon
