import Nixe.Maxwell.Pushbuffer

/-!
# The grammar of pushbuffers

What a command stream may be is said by a grammar, independently of how it is decoded. An
instruction is a header word, which encodes its fields as a sum of multiples of powers of two, and
the argument words that the header announces. A stream is a sequence of instructions in which an
end-segment control is followed by the words of its entry that it discards, and these are all the
words of the entry that were left.

The decoder accepts exactly the streams of the grammar, and returns the instructions of the parse.
-/

namespace Nixe.Maxwell

open List

/-! ## Instructions -/

/-- The opcode of a method header. -/
def MaxwellMethodPacketMode.opcode : MaxwellMethodPacketMode → Nat
  | .incrementing => 1
  | .nonIncrementing => 3
  | .immediate => 4
  | .incrementOnce => 5

/-- The method, counted in words, that the write with the given index goes to. -/
def MaxwellMethodPacketMode.position (mode : MaxwellMethodPacketMode) (method index : Nat) : Nat :=
  match mode with
  | .incrementing => method + index
  | .nonIncrementing | .immediate => method
  | .incrementOnce => method + min index 1

/-- A method header with the given fields. -/
def methodHeader (opcode count : Nat) (subchannel : MaxwellPushbufferSubchannel) (method : Nat) :
    Nat :=
  opcode * 2 ^ 29 + count * 2 ^ 16 + subchannel.val * 2 ^ 13 + method

/-- The writes of a sequence: one for each argument word. -/
def writes (mode : MaxwellMethodPacketMode) (method : Nat) (payload : List MaxwellPushbufferWord) :
    List MaxwellDecodedMethod :=
  payload.mapIdx fun index argument ↦
    ⟨UInt32.ofNat (mode.position method index * 4), argument.value, argument.location⟩

open MaxwellDecodedPacket in
/-- The instruction that a header and its arguments spell. -/
inductive Spells : MaxwellPushbufferWord → List MaxwellPushbufferWord → MaxwellDecodedPacket → Prop
  | nop {header : MaxwellPushbufferWord} (h : header.value.toNat = 0) :
    Spells header [] (control .nop header.location)
  | setSubdeviceMask {header : MaxwellPushbufferWord} {mask : UInt16} (hmask : mask.toNat < 2 ^ 12)
    (h : header.value.toNat = 1 * 2 ^ 16 + mask.toNat * 2 ^ 4) :
    Spells header [] (control (.setSubdeviceMask mask) header.location)
  | storeSubdeviceMask {header : MaxwellPushbufferWord} {mask : UInt16}
    (hmask : mask.toNat < 2 ^ 12) (h : header.value.toNat = 2 * 2 ^ 16 + mask.toNat * 2 ^ 4) :
    Spells header [] (control (.storeSubdeviceMask mask) header.location)
  | useSubdeviceMask {header : MaxwellPushbufferWord} (h : header.value.toNat = 3 * 2 ^ 16) :
    Spells header [] (control .useSubdeviceMask header.location)
  | endSegment {header : MaxwellPushbufferWord} {ignored : Nat} (hignored : ignored < 2 ^ 29)
    (h : header.value.toNat = 7 * 2 ^ 29 + ignored) :
    Spells header [] (control .endSegment header.location)
  /-- A header that announces no arguments; its other fields are ignored. -/
  | noWrites {header : MaxwellPushbufferWord} {mode : MaxwellMethodPacketMode} {ignored : Nat}
    (hmode : mode ≠ .immediate) (hignored : ignored < 2 ^ 16)
    (h : header.value.toNat = mode.opcode * 2 ^ 29 + ignored) :
    Spells header [] (methods ⟨mode, header.location, none, []⟩)
  /-- The argument of an immediate write stands in the place of the count. -/
  | immediate {header : MaxwellPushbufferWord} {argument : UInt32}
    {subchannel : MaxwellPushbufferSubchannel} {method : Nat} (hargument : argument.toNat < 2 ^ 13)
    (hmethod : method < 2 ^ 12)
    (h : header.value.toNat =
      methodHeader MaxwellMethodPacketMode.immediate.opcode argument.toNat subchannel method) :
    Spells header [] (methods ⟨.immediate, header.location, some subchannel,
      [⟨UInt32.ofNat (method * 4), argument, header.location⟩]⟩)
  | writes {header : MaxwellPushbufferWord} {payload : List MaxwellPushbufferWord}
    {mode : MaxwellMethodPacketMode} {subchannel : MaxwellPushbufferSubchannel} {method : Nat}
    (hmode : mode ≠ .immediate) (hpos : payload ≠ []) (hcount : payload.length < 2 ^ 13)
    (hmethod : method < 2 ^ 12)
    (hspace : ∀ index < payload.length, mode.position method index < 2 ^ 12)
    (h : header.value.toNat = methodHeader mode.opcode payload.length subchannel method) :
    Spells header payload (methods ⟨mode, header.location, some subchannel,
      writes mode method payload⟩)

/-! ## Streams -/

/-- The entry that a word belongs to. -/
def MaxwellPushbufferWord.entry (word : MaxwellPushbufferWord) : Nat := word.location.entryIndex

/-- The stream `words` is the sequence of instructions `packets`. -/
inductive Parses : List MaxwellPushbufferWord → List MaxwellDecodedPacket → Prop
  | done : Parses [] []
  | instruction {header : MaxwellPushbufferWord} {payload rest : List MaxwellPushbufferWord}
    {packet : MaxwellDecodedPacket} {packets : List MaxwellDecodedPacket}
    (hspells : Spells header payload packet) (hnot : packet.isEndSegment = false)
    (hrest : Parses rest packets) : Parses (header :: (payload ++ rest)) (packet :: packets)
  /-- The words `discarded` are all that is left of the entry. -/
  | segment {header : MaxwellPushbufferWord} {discarded rest : List MaxwellPushbufferWord}
    {packet : MaxwellDecodedPacket} {packets : List MaxwellDecodedPacket}
    (hspells : Spells header [] packet) (hend : packet.isEndSegment = true)
    (hdiscarded : ∀ word ∈ discarded, word.entry = header.entry)
    (hkept : ∀ word ∈ rest, word.entry ≠ header.entry)
    (hrest : Parses rest packets) : Parses (header :: (discarded ++ rest)) (packet :: packets)

/-! ## The fields of a header -/

section

variable (word : UInt32)

theorem toNat_secondaryOpcode : (secondaryOpcode word).toNat = word.toNat / 2 ^ 29 := by
  have h := word.toNat_lt
  have hshift : (word >>> secondaryOpcodeShift).toNat = word.toNat / 2 ^ 29 := by
    rw [UInt32.toNat_shiftRight, Nat.shiftRight_eq_div_pow]
    rfl
  rw [secondaryOpcode, UInt32.toNat_and, hshift]
  change word.toNat / 2 ^ 29 &&& 2 ^ 3 - 1 = _
  rw [Nat.and_two_pow_sub_one_eq_mod]
  omega

theorem secondaryOpcode_eq_iff {opcode : UInt32} :
    secondaryOpcode word = opcode ↔ word.toNat / 2 ^ 29 = opcode.toNat := by
  rw [← UInt32.toNat_inj, toNat_secondaryOpcode]

theorem ne_zero_of_toNat_pos (h : 0 < word.toNat) : word ≠ 0 := by
  rintro rfl
  exact absurd h (by decide)

theorem toNat_encodedCount : (encodedCount word).toNat = word.toNat / 2 ^ 16 % 2 ^ 13 := by
  have hshift : (word >>> countShift).toNat = word.toNat / 2 ^ 16 := by
    rw [UInt32.toNat_shiftRight, Nat.shiftRight_eq_div_pow]
    rfl
  rw [encodedCount, UInt32.toNat_and, hshift]
  exact Nat.and_two_pow_sub_one_eq_mod _ 13

theorem val_encodedSubchannel : (encodedSubchannel word).val = word.toNat / 2 ^ 13 % 2 ^ 3 := by
  have hshift : (word >>> subchannelShift).toNat = word.toNat / 2 ^ 13 := by
    rw [UInt32.toNat_shiftRight, Nat.shiftRight_eq_div_pow]
    rfl
  rw [encodedSubchannel, UInt32.toNat_and, hshift]
  change (word.toNat / 2 ^ 13 &&& 2 ^ 3 - 1) % 8 = _
  rw [Nat.and_two_pow_sub_one_eq_mod, Nat.mod_mod]

theorem toNat_firstMethodDword : (firstMethodDword word).toNat = word.toNat % 2 ^ 12 := by
  rw [firstMethodDword, UInt32.toNat_and]
  exact Nat.and_two_pow_sub_one_eq_mod _ 12

/-- The reserved bit. -/
theorem and_methodReservedBit : word &&& methodReservedBit = 0 ↔ word.toNat / 2 ^ 12 % 2 = 0 := by
  rw [← UInt32.toNat_inj, UInt32.toNat_and]
  change word.toNat &&& 2 ^ 12 = 0 ↔ _
  rw [Nat.and_two_pow, Nat.testBit_eq_decide_div_mod_eq]
  simp

theorem toNat_high : (word >>> 16).toUInt16.toNat = word.toNat / 2 ^ 16 := by
  have h := word.toNat_lt
  rw [UInt32.toNat_toUInt16, UInt32.toNat_shiftRight, Nat.shiftRight_eq_div_pow]
  change word.toNat / 2 ^ 16 % 2 ^ 16 = _
  omega

theorem toNat_low : word.toUInt16.toNat = word.toNat % 2 ^ 16 := UInt32.toNat_toUInt16 word

theorem low_aligned : word.toUInt16 &&& 0xf = 0 ↔ word.toNat % 2 ^ 4 = 0 := by
  rw [← UInt16.toNat_inj, UInt16.toNat_and, toNat_low]
  change word.toNat % 2 ^ 16 &&& 2 ^ 4 - 1 = 0 ↔ _
  rw [Nat.and_two_pow_sub_one_eq_mod]
  omega

theorem toNat_low_shiftRight :
    (word.toUInt16 >>> 4).toNat = word.toNat % 2 ^ 16 / 2 ^ 4 := by
  rw [UInt16.toNat_shiftRight, toNat_low, Nat.shiftRight_eq_div_pow]
  rfl

/-- A control with a subdevice mask: the opcode, the mask and four zeros. -/
theorem maskControl_iff (opcode : UInt16) {mask : UInt16} :
    ((word >>> 16).toUInt16 = opcode ∧ word.toUInt16 &&& 0xf = 0) ∧ word.toUInt16 >>> 4 = mask ↔
      mask.toNat < 2 ^ 12 ∧ word.toNat = opcode.toNat * 2 ^ 16 + mask.toNat * 2 ^ 4 := by
  have h := word.toNat_lt
  rw [low_aligned, ← UInt16.toNat_inj, ← UInt16.toNat_inj, toNat_high, toNat_low_shiftRight]
  omega

end

/-! ## Arguments -/

section

variable {ε : Type}

theorem methodDword_eq_position (mode : MaxwellMethodPacketMode) (method index : Nat) :
    methodDword mode method index = mode.position method index := by
  cases mode with
  | incrementOnce =>
    rw [methodDword, MaxwellMethodPacketMode.position]
    split <;> omega
  | _ => rfl

variable {source : MaxwellGpfifoSourceLocation} {count : Nat}
  {subchannel : MaxwellPushbufferSubchannel} {payload : List MaxwellPushbufferWord}

/-- The loop over the arguments reads as many words as are left to read. -/
theorem decodeArguments_eq_ok_iff {mode : MaxwellMethodPacketMode} {first index remaining : Nat}
    {words rest : WordStream ε} {methods : List MaxwellDecodedMethod} :
    decodeArguments source mode first count index remaining words = .ok (methods, rest) ↔
      ∃ payload : List MaxwellPushbufferWord, words = payload.map .ok ++ rest ∧
        payload.length = remaining ∧
        methods = payload.mapIdx fun i argument ↦
          ⟨methodId (methodDword mode first (index + i)), argument.value, argument.location⟩ := by
  induction remaining generalizing index words methods with
  | zero =>
    constructor
    · intro h
      cases h
      exact ⟨[], rfl, rfl, rfl⟩
    · rintro ⟨payload, rfl, hlength, rfl⟩
      rw [length_eq_zero_iff.mp hlength]
      rfl
  | succ remaining ih =>
    constructor
    · intro h
      match words, h with
      | [], h | .error _ :: _, h => cases h
      | .ok argument :: words, h =>
        obtain ⟨_, hnext, h⟩ := bind_eq_ok_iff.mp h
        cases hnext
        obtain ⟨⟨methods', rest'⟩, hrest, h⟩ := bind_eq_ok_iff.mp h
        cases h
        obtain ⟨payload, rfl, rfl, rfl⟩ := ih.mp hrest
        refine ⟨argument :: payload, rfl, rfl, ?_⟩
        simp only [mapIdx_cons, Nat.add_zero, Nat.add_assoc, Nat.add_comm 1]
    · rintro ⟨payload, rfl, hlength, rfl⟩
      match payload, hlength with
      | argument :: payload, hlength =>
        rw [decodeArguments, map_cons, cons_append, nextWord, ok_bind]
        dsimp only
        rw [ih.mpr ⟨payload, rfl, Nat.succ.inj hlength, rfl⟩, ok_bind]
        simp only [mapIdx_cons, Nat.add_zero, Nat.add_assoc, Nat.add_comm 1]

theorem lastMethodDword_eq_position (mode : MaxwellMethodPacketMode) (first count : Nat) :
    lastMethodDword mode first count = mode.position first (count - 1) := by
  cases mode with
  | incrementOnce =>
    rw [lastMethodDword, MaxwellMethodPacketMode.position]
    split <;> omega
  | _ => rfl

/-- The check of the last method is a check of all of them. -/
theorem validateMethodRange_eq_ok_iff {mode : MaxwellMethodPacketMode} {first : Nat}
    (hcount : 0 < count) {u : Unit} :
    (validateMethodRange source mode first count : Decoding ε Unit) = .ok u ↔
      ∀ index < count, mode.position first index < 2 ^ 12 := by
  have hle : ∀ index < count, mode.position first index ≤ mode.position first (count - 1) := by
    intro index hindex
    cases mode <;> simp only [MaxwellMethodPacketMode.position] <;> omega
  rw [validateMethodRange, lastMethodDword_eq_position, maxMethodDword]
  split
  · rename_i hlast
    refine ⟨fun _ index hindex ↦ ?_, fun _ ↦ rfl⟩
    have := hle index hindex
    omega
  · rename_i hlast
    refine ⟨nofun, fun h ↦ ?_⟩
    have := h (count - 1) (by omega)
    omega

/-! ## Instructions -/

/-- A method header, taken apart. -/
theorem methodHeader_eq_iff {value opcode method : Nat} (hcount : count < 2 ^ 13)
    (hmethod : method < 2 ^ 12) :
    value = methodHeader opcode count subchannel method ↔
      value / 2 ^ 29 = opcode ∧ value / 2 ^ 16 % 2 ^ 13 = count ∧
        value / 2 ^ 13 % 2 ^ 3 = subchannel.val ∧ value / 2 ^ 12 % 2 = 0 ∧
        value % 2 ^ 12 = method := by
  have hsubchannel := subchannel.isLt
  rw [methodHeader]
  omega

theorem methodEncodings_find (mode : MaxwellMethodPacketMode) {opcode : UInt32}
    (h : opcode.toNat = mode.opcode) :
    ∃ encoding, methodEncodings.find? (fun encoding ↦ encoding.1 == opcode) = some encoding ∧
      encoding.2 = mode := by
  obtain rfl : opcode = UInt32.ofNat mode.opcode := by
    rw [← h, UInt32.ofNat_toNat]
  cases mode <;> exact ⟨_, rfl, rfl⟩

theorem opcode_of_find {opcode : UInt32} {encoding : UInt32 × MaxwellMethodPacketMode}
    (h : methodEncodings.find? (fun encoding ↦ encoding.1 == opcode) = some encoding) :
    opcode.toNat = encoding.2.opcode := by
  have hopcode : encoding.1 = opcode := by simpa using List.find?_some h
  have hall : ∀ encoding ∈ methodEncodings, encoding.1.toNat = encoding.2.opcode := by decide
  rw [← hopcode]
  exact hall encoding (mem_of_find?_eq_some h)

theorem writes_eq (mode : MaxwellMethodPacketMode) (method : Nat)
    (payload : List MaxwellPushbufferWord) :
    (payload.mapIdx fun i argument ↦ (⟨methodId (methodDword mode method (0 + i)), argument.value,
      argument.location⟩ : MaxwellDecodedMethod)) = writes mode method payload := by
  simp only [Nat.zero_add, methodDword_eq_position, methodId, writes]

variable {header : MaxwellPushbufferWord} {mode : MaxwellMethodPacketMode}
  {words rest : WordStream ε} {packet : MaxwellDecodedPacket}

/-- What the decoder of method packets accepts is an instruction of the grammar. -/
theorem spells_of_decodeMethodPacket (hopcode : header.value.toNat / 2 ^ 29 = mode.opcode)
    (h : decodeMethodPacket header mode words = .ok (packet, rest)) :
    ∃ payload : List MaxwellPushbufferWord, words = payload.map .ok ++ rest ∧
      Spells header payload packet := by
  have hcount := toNat_encodedCount header.value
  have hfirst := toNat_firstMethodDword header.value
  have hsubchannel := val_encodedSubchannel header.value
  have hlt := header.value.toNat_lt
  rw [decodeMethodPacket] at h
  split at h
  · rename_i hzero
    cases h
    have hmode : mode ≠ .immediate := by
      rintro rfl
      exact absurd hzero Nat.one_ne_zero
    rw [methodCount, if_neg hmode, hcount] at hzero
    exact ⟨[], rfl, .noWrites hmode (Nat.mod_lt (header.value.toNat % 2 ^ 29) (by decide))
      (by omega)⟩
  · rename_i hnonzero
    obtain ⟨hreserved, h⟩ := ite_error_eq_ok_iff.mp h
    rw [not_not, and_methodReservedBit] at hreserved
    obtain ⟨_, hspace, h⟩ := bind_eq_ok_iff.mp h
    rw [validateMethodRange_eq_ok_iff (Nat.pos_of_ne_zero hnonzero)] at hspace
    split at h
    · rename_i hmode
      cases h
      subst hmode
      refine ⟨[], rfl, .immediate ?_ ?_ ?_⟩
      · omega
      · omega
      · rw [methodHeader_eq_iff (by omega) (by omega)]
        omega
    · rename_i hmode
      rw [methodCount, if_neg hmode] at hnonzero hspace h
      obtain ⟨⟨methods, rest'⟩, harguments, h⟩ := bind_eq_ok_iff.mp h
      cases h
      obtain ⟨payload, rfl, hlength, rfl⟩ := decodeArguments_eq_ok_iff.mp harguments
      rw [writes_eq]
      refine ⟨payload, rfl, .writes hmode ?_ ?_ ?_ ?_ ?_⟩
      · rintro rfl
        exact hnonzero hlength.symm
      · omega
      · omega
      · rwa [hlength]
      · rw [methodHeader_eq_iff (by omega) (by omega)]
        omega

theorem spells_of_decodeGroupZeroControl
    (h : (decodeGroupZeroControl header : Decoding ε _) = .ok packet) :
    Spells header [] packet := by
  rw [decodeGroupZeroControl] at h
  split at h
  · rename_i hset
    cases h
    obtain ⟨hmask, hvalue⟩ := (maskControl_iff _ _).mp ⟨hset, rfl⟩
    exact .setSubdeviceMask hmask hvalue
  · split at h
    · rename_i hstore
      cases h
      obtain ⟨hmask, hvalue⟩ := (maskControl_iff _ _).mp ⟨hstore, rfl⟩
      exact .storeSubdeviceMask hmask hvalue
    · split at h
      · rename_i huse
        cases h
        obtain ⟨hopcode, hzero⟩ := huse
        rw [← UInt16.toNat_inj, toNat_high, controlUseSubdeviceMask] at hopcode
        rw [← UInt16.toNat_inj, toNat_low] at hzero
        refine .useSubdeviceMask ?_
        change header.value.toNat / 2 ^ 16 = 3 at hopcode
        change header.value.toNat % 2 ^ 16 = 0 at hzero
        omega
      · cases h

/-- What the decoder accepts as a packet is an instruction of the grammar. -/
theorem spells_of_decodePacket (h : decodePacket header words = .ok (packet, rest)) :
    ∃ payload : List MaxwellPushbufferWord, words = payload.map .ok ++ rest ∧
      Spells header payload packet := by
  have hopcode := toNat_secondaryOpcode header.value
  rw [decodePacket] at h
  split at h
  · rename_i hzero
    cases h
    exact ⟨[], rfl, .nop (by rw [hzero]; rfl)⟩
  · dsimp only at h
    split at h
    · obtain ⟨packet', hcontrol, h⟩ := bind_eq_ok_iff.mp h
      cases h
      exact ⟨[], rfl, spells_of_decodeGroupZeroControl hcontrol⟩
    · split at h
      · rename_i hend
        cases h
        rw [secondaryOpcode_eq_iff] at hend
        change header.value.toNat / 2 ^ 29 = 7 at hend
        exact ⟨[], rfl, .endSegment (Nat.mod_lt header.value.toNat (by decide)) (by omega)⟩
      · split at h
        · rename_i encoding hfind
          exact spells_of_decodeMethodPacket (hopcode.symm.trans (opcode_of_find hfind)) h
        · cases h

/-! ## Every instruction is decoded -/

theorem decodePacket_of_mode (hopcode : header.value.toNat / 2 ^ 29 = mode.opcode)
    (words : WordStream ε) : decodePacket header words = decodeMethodPacket header mode words := by
  have htoNat := (toNat_secondaryOpcode header.value).trans hopcode
  obtain ⟨encoding, hfind, rfl⟩ := methodEncodings_find mode htoNat
  have hpos : 0 < encoding.2.opcode ∧ encoding.2.opcode < 7 := by
    cases encoding.2 <;> decide
  have hvalue : header.value ≠ 0 := ne_zero_of_toNat_pos _ (by omega)
  have hgroup : secondaryOpcode header.value ≠ opcodeGroupZero := by
    rw [ne_eq, secondaryOpcode_eq_iff, hopcode]
    exact hpos.1.ne'
  have hend : secondaryOpcode header.value ≠ opcodeEndSegment := by
    rw [ne_eq, secondaryOpcode_eq_iff, hopcode]
    exact hpos.2.ne
  rw [decodePacket, if_neg hvalue]
  rw [if_neg hgroup, if_neg hend, hfind]

theorem decodePacket_of_groupZero (hpos : 0 < header.value.toNat)
    (hopcode : header.value.toNat < 2 ^ 29) (words : WordStream ε) :
    decodePacket header words =
      decodeGroupZeroControl header >>= fun packet ↦ .ok (packet, words) := by
  have hgroup : secondaryOpcode header.value = opcodeGroupZero :=
    (secondaryOpcode_eq_iff _).mpr (Nat.div_eq_of_lt hopcode)
  rw [decodePacket, if_neg (ne_zero_of_toNat_pos _ hpos)]
  rw [if_pos hgroup]

/-- The decoder of method packets on a header with known fields. -/
theorem decodeMethodPacket_of_fields {method : Nat}
    (hcount : methodCount mode header.value = count) (hpos : 0 < count)
    (hsubchannel : header.value.toNat / 2 ^ 13 % 2 ^ 3 = subchannel.val)
    (hreserved : header.value.toNat / 2 ^ 12 % 2 = 0)
    (hfirst : header.value.toNat % 2 ^ 12 = method)
    (hspace : ∀ index < count, mode.position method index < 2 ^ 12) :
    decodeMethodPacket header mode words =
      if mode = .immediate then
        .ok (.methods ⟨mode, header.location, some subchannel,
          [⟨methodId method, encodedCount header.value, header.location⟩]⟩, words)
      else
        decodeArguments header.location mode method count 0 count words >>= fun result ↦
          .ok (.methods ⟨mode, header.location, some subchannel, result.1⟩, result.2) := by
  have hmethod : (firstMethodDword header.value).toNat = method := by
    rw [toNat_firstMethodDword, hfirst]
  have hencoded : encodedSubchannel header.value = subchannel := by
    rw [← Fin.val_inj, val_encodedSubchannel, hsubchannel]
  rw [decodeMethodPacket, hcount, if_neg hpos.ne',
    if_neg (not_not.mpr ((and_methodReservedBit _).mpr hreserved)), hmethod, hencoded]
  dsimp only
  rw [(validateMethodRange_eq_ok_iff (u := ()) hpos).mpr hspace, ok_bind]

/-- An instruction of the grammar is decoded, and what follows it is left. -/
theorem decodePacket_of_spells (h : Spells header payload packet) (rest : WordStream ε) :
    decodePacket header (payload.map .ok ++ rest) = .ok (packet, rest) := by
  cases h with
  | nop h =>
    have hzero : header.value = 0 := UInt32.toNat_inj.mp h
    rw [decodePacket, if_pos hzero]
    rfl
  | setSubdeviceMask hmask h =>
    obtain ⟨hset, hlow⟩ := (maskControl_iff _ controlSetSubdeviceMask).mpr ⟨hmask, h⟩
    rw [decodePacket_of_groupZero (by omega) (by omega), decodeGroupZeroControl, if_pos hset, hlow]
    rfl
  | storeSubdeviceMask hmask h =>
    obtain ⟨hstore, hlow⟩ := (maskControl_iff _ controlStoreSubdeviceMask).mpr ⟨hmask, h⟩
    have hset : (header.value >>> 16).toUInt16 ≠ controlSetSubdeviceMask := by
      rw [hstore.1]
      decide
    rw [decodePacket_of_groupZero (by omega) (by omega), decodeGroupZeroControl,
      if_neg (hset ·.1), if_pos hstore, hlow]
    rfl
  | useSubdeviceMask h =>
    have hvalue : header.value = 0x30000 := by
      rw [← UInt32.toNat_inj, h]
      rfl
    rw [decodePacket_of_groupZero (by omega) (by omega), decodeGroupZeroControl, hvalue]
    rfl
  | endSegment hignored h =>
    have hopcode : secondaryOpcode header.value = opcodeEndSegment := by
      rw [secondaryOpcode_eq_iff]
      change _ = 7
      omega
    rw [decodePacket, if_neg (ne_zero_of_toNat_pos _ (by omega)), hopcode]
    rfl
  | noWrites hmode hignored h =>
    rename_i mode ignored
    have hopcode : header.value.toNat / 2 ^ 29 = mode.opcode := by omega
    have hcount : methodCount mode header.value = 0 := by
      rw [methodCount, if_neg hmode, toNat_encodedCount]
      omega
    rw [decodePacket_of_mode hopcode, decodeMethodPacket, if_pos hcount]
    rfl
  | immediate hargument hmethod h =>
    rename_i argument subchannel method
    obtain ⟨hopcode, hcount, hsubchannel, hreserved, hfirst⟩ :=
      (methodHeader_eq_iff hargument hmethod).mp h
    have hvalue : encodedCount header.value = argument := by
      rw [← UInt32.toNat_inj, toNat_encodedCount, hcount]
    have hone : methodCount .immediate header.value = 1 := rfl
    rw [decodePacket_of_mode hopcode, decodeMethodPacket_of_fields hone Nat.one_pos hsubchannel
      hreserved hfirst (fun _ _ ↦ hmethod), if_pos rfl, hvalue, methodId]
    rfl
  | writes hmode hpos hcount hmethod hspace h =>
    rename_i mode subchannel method
    obtain ⟨hopcode, hlength, hsubchannel, hreserved, hfirst⟩ :=
      (methodHeader_eq_iff hcount hmethod).mp h
    have hmethodCount : methodCount mode header.value = payload.length := by
      rw [methodCount, if_neg hmode, toNat_encodedCount, hlength]
    rw [decodePacket_of_mode hopcode, decodeMethodPacket_of_fields hmethodCount
      (length_pos_iff.mpr hpos) hsubchannel hreserved hfirst hspace, if_neg hmode,
      decodeArguments_eq_ok_iff.mpr ⟨payload, rfl, rfl, rfl⟩, ok_bind, writes_eq]

/-! ## Segments -/

/-- The stream does not go on with a word of the entry, and not with a failure. -/
def LeavesEntry (entry : Nat) : WordStream ε → Prop
  | [] => True
  | .ok word :: _ => word.entry ≠ entry
  | .error _ :: _ => False

theorem skipEntryTail_eq_ok_iff {entry : Nat} :
    skipEntryTail entry words = .ok rest ↔
      ∃ discarded : List MaxwellPushbufferWord, words = discarded.map .ok ++ rest ∧
        (∀ word ∈ discarded, word.entry = entry) ∧ LeavesEntry entry rest := by
  induction words with
  | nil =>
    constructor
    · intro h
      cases h
      exact ⟨[], rfl, nofun, trivial⟩
    · rintro ⟨discarded, hwords, -, -⟩
      rw [nil_eq, append_eq_nil_iff] at hwords
      rw [hwords.2]
      rfl
  | cons item words ih =>
    match item with
    | .error error =>
      refine ⟨nofun, ?_⟩
      rintro ⟨discarded, hwords, -, hleaves⟩
      match discarded, hwords with
      | [], hwords =>
        rw [map_nil, nil_append] at hwords
        rw [← hwords] at hleaves
        exact hleaves.elim
    | .ok word =>
      rw [skipEntryTail]
      by_cases hentry : word.location.entryIndex = entry
      · rw [if_pos hentry, ih]
        constructor
        · rintro ⟨discarded, rfl, hdiscarded, hleaves⟩
          exact ⟨word :: discarded, rfl, forall_mem_cons.mpr ⟨hentry, hdiscarded⟩, hleaves⟩
        · rintro ⟨discarded, hwords, hdiscarded, hleaves⟩
          match discarded, hwords with
          | [], hwords =>
            rw [map_nil, nil_append] at hwords
            rw [← hwords] at hleaves
            exact absurd hentry hleaves
          | word' :: discarded, hwords =>
            obtain ⟨-, rfl⟩ := List.cons.inj hwords
            exact ⟨discarded, rfl, fun w hw ↦ hdiscarded w (mem_cons_of_mem _ hw), hleaves⟩
      · rw [if_neg hentry]
        constructor
        · intro h
          cases h
          exact ⟨[], rfl, nofun, hentry⟩
        · rintro ⟨discarded, hwords, hdiscarded, -⟩
          match discarded, hwords with
          | [], hwords => rw [hwords]; rfl
          | word' :: discarded, hwords =>
            obtain ⟨hword, -⟩ := List.cons.inj hwords
            cases hword
            exact absurd (hdiscarded word mem_cons_self) hentry

/-- One turn of the loop reads an instruction, and for an end-segment control the words that it
discards. -/
theorem decodeStep_eq_ok_iff :
    decodeStep header words = .ok (packet, rest) ↔
      ∃ read : List MaxwellPushbufferWord, words = read.map .ok ++ rest ∧
        ((Spells header read packet ∧ packet.isEndSegment = false) ∨
          (Spells header [] packet ∧ packet.isEndSegment = true ∧
            (∀ word ∈ read, word.entry = header.entry) ∧ LeavesEntry header.entry rest)) := by
  constructor
  · intro hdecode
    obtain ⟨⟨packet', words'⟩, hpacket, h⟩ := bind_eq_ok_iff.mp hdecode
    obtain ⟨payload, rfl, hspells⟩ := spells_of_decodePacket hpacket
    dsimp only at h
    split at h
    · rename_i hend
      obtain ⟨rest', hskip, h⟩ := bind_eq_ok_iff.mp h
      cases h
      have hnone : payload = [] := by cases hspells <;> first | rfl | cases hend
      subst hnone
      obtain ⟨discarded, rfl, hdiscarded, hleaves⟩ := skipEntryTail_eq_ok_iff.mp hskip
      exact ⟨discarded, rfl, .inr ⟨hspells, hend, hdiscarded, hleaves⟩⟩
    · rename_i hend
      cases h
      exact ⟨payload, rfl, .inl ⟨hspells, Bool.eq_false_iff.mpr hend⟩⟩
  · rintro ⟨read, rfl, ⟨hspells, hend⟩ | ⟨hspells, hend, hdiscarded, hleaves⟩⟩
    · rw [decodeStep, decodePacket_of_spells hspells, ok_bind]
      dsimp only
      rw [hend, if_neg Bool.false_ne_true]
    · have hpacket := decodePacket_of_spells hspells (read.map .ok ++ rest)
      rw [map_nil, nil_append] at hpacket
      rw [decodeStep, hpacket, ok_bind]
      dsimp only
      have hskip := skipEntryTail_eq_ok_iff.mpr ⟨read, rfl, hdiscarded, hleaves⟩
      rw [hend, if_pos rfl]
      change (skipEntryTail header.entry _ >>= _) = _
      rw [hskip, ok_bind]

/-! ## The loop -/

theorem decodeMaxwellPushbuffer_cons (header : MaxwellPushbufferWord) (words : WordStream ε) :
    decodeMaxwellPushbuffer (.ok header :: words) =
      decodeStep header words >>= fun result ↦
        decodeMaxwellPushbuffer result.2 >>= fun packets ↦ .ok (result.1 :: packets) := by
  rw [decodeMaxwellPushbuffer]
  split
  · rename_i hstep
    rw [hstep]
    rfl
  · rename_i hstep
    simp only [hstep, ok_bind]

/-- The entries of the words come one after the other. -/
def InEntryOrder (words : List MaxwellPushbufferWord) : Prop :=
  words.Pairwise fun word word' ↦ word.entry ≤ word'.entry

theorem leavesEntry_map_iff {entry : Nat} {words : List MaxwellPushbufferWord}
    (horder : InEntryOrder words) (hle : ∀ word ∈ words, entry ≤ word.entry) :
    LeavesEntry entry (words.map .ok : WordStream ε) ↔ ∀ word ∈ words, word.entry ≠ entry := by
  match words, horder with
  | [], _ => exact ⟨nofun, fun _ ↦ trivial⟩
  | word :: words, horder =>
    refine ⟨fun h ↦ ?_, fun h ↦ h word mem_cons_self⟩
    have hlt : entry < word.entry := lt_of_le_of_ne (hle word mem_cons_self) (Ne.symm h)
    refine forall_mem_cons.mpr ⟨h, fun word' hmem ↦ ?_⟩
    exact (hlt.trans_le ((pairwise_cons.mp horder).1 word' hmem)).ne'

/-- The decoder accepts the streams of the grammar, and no others. -/
theorem decodeMaxwellPushbuffer_eq_ok_iff {words : List MaxwellPushbufferWord}
    (horder : InEntryOrder words) {packets : List MaxwellDecodedPacket} :
    decodeMaxwellPushbuffer (words.map .ok : WordStream ε) = .ok packets ↔
      Parses words packets := by
  constructor
  · intro h
    -- the stream gets shorter with every turn of the loop
    induction hlength : words.length using Nat.strong_induction_on generalizing words packets with
    | _ length ih =>
      match words, horder with
      | [], _ =>
        rw [map_nil, decodeMaxwellPushbuffer] at h
        cases h
        exact .done
      | header :: words, horder =>
        rw [map_cons, decodeMaxwellPushbuffer_cons] at h
        obtain ⟨⟨packet, rest⟩, hstep, h⟩ := bind_eq_ok_iff.mp h
        obtain ⟨packets', hrest, h⟩ := bind_eq_ok_iff.mp h
        cases h
        obtain ⟨read, hwords, hread⟩ := decodeStep_eq_ok_iff.mp hstep
        obtain ⟨read', rest', rfl, hread', rfl⟩ := map_eq_append_iff.mp hwords
        obtain rfl : read' = read := map_injective_iff.mpr (fun _ _ ↦ Except.ok.inj) hread'
        have horder' : InEntryOrder (read' ++ rest') := (pairwise_cons.mp horder).2
        have hparses : Parses rest' packets' := by
          refine ih rest'.length ?_ (pairwise_append.mp horder').2.1 hrest rfl
          rw [← hlength, length_cons, length_append]
          omega
        obtain ⟨hspells, hend⟩ | ⟨hspells, hend, hdiscarded, hleaves⟩ := hread
        · exact .instruction hspells hend hparses
        · refine .segment hspells hend hdiscarded ?_ hparses
          refine (leavesEntry_map_iff (pairwise_append.mp horder').2.1 ?_).mp hleaves
          exact fun word hmem ↦
            (pairwise_cons.mp horder).1 word (mem_append_right _ hmem)
  · intro h
    induction h with
    | done =>
      rw [map_nil, decodeMaxwellPushbuffer]
    | instruction hspells hend _ ih =>
      have horder' := (pairwise_append.mp (pairwise_cons.mp horder).2).2.1
      rw [map_cons, map_append, decodeMaxwellPushbuffer_cons,
        decodeStep_eq_ok_iff.mpr ⟨_, rfl, .inl ⟨hspells, hend⟩⟩, ok_bind, ih horder', ok_bind]
    | segment hspells hend hdiscarded hkept _ ih =>
      obtain ⟨hle, htail⟩ := pairwise_cons.mp horder
      have horder' := (pairwise_append.mp htail).2.1
      have hleaves := (leavesEntry_map_iff (ε := ε) horder' fun word hmem ↦
        hle word (mem_append_right _ hmem)).mpr hkept
      rw [map_cons, map_append, decodeMaxwellPushbuffer_cons,
        decodeStep_eq_ok_iff.mpr ⟨_, rfl, .inr ⟨hspells, hend, hdiscarded, hleaves⟩⟩, ok_bind,
        ih horder', ok_bind]

end

/-! ## Located words -/

section

variable (location : Nat → Nat → MaxwellGpfifoSourceLocation)

/-- The location of a word of an entry names the entry and the offset of the word; its other
fields are arbitrary. -/
def locate (entry offset : Nat) : MaxwellGpfifoSourceLocation :=
  { location entry offset with entryIndex := entry, wordOffset := offset }

/-- The words of the entry with index `entry`, the first of which has the offset `offset`. -/
def locateEntry (entry : Nat) : Nat → List UInt32 → List MaxwellPushbufferWord
  | _, [] => []
  | offset, value :: values =>
    ⟨value, locate location entry offset⟩ :: locateEntry entry (offset + 1) values

/-- The concatenation of the entries, the first of which has the index `entry`. -/
def locateEntries : Nat → List (List UInt32) → List MaxwellPushbufferWord
  | _, [] => []
  | entry, values :: entries =>
    locateEntry location entry 0 values ++ locateEntries (entry + 1) entries

variable {location} {word : MaxwellPushbufferWord}

theorem entry_of_mem_locateEntry {entry offset : Nat} {values : List UInt32}
    (h : word ∈ locateEntry location entry offset values) : word.entry = entry := by
  induction values generalizing offset with
  | nil => exact nomatch h
  | cons value values ih =>
    obtain rfl | h := mem_cons.mp h
    · rfl
    · exact ih h

theorem entry_le_of_mem_locateEntries {entry : Nat} {entries : List (List UInt32)}
    (h : word ∈ locateEntries location entry entries) : entry ≤ word.entry := by
  induction entries generalizing entry with
  | nil => exact nomatch h
  | cons values entries ih =>
    obtain h | h := mem_append.mp h
    · exact (entry_of_mem_locateEntry h).ge
    · exact (Nat.le_succ entry).trans (ih h)

theorem inEntryOrder_locateEntry (entry offset : Nat) (values : List UInt32) :
    InEntryOrder (locateEntry location entry offset values) := by
  refine pairwise_of_forall_mem_list fun word hword word' hword' ↦ ?_
  rw [entry_of_mem_locateEntry hword, entry_of_mem_locateEntry hword']

theorem inEntryOrder_locateEntries (entry : Nat) (entries : List (List UInt32)) :
    InEntryOrder (locateEntries location entry entries) := by
  induction entries generalizing entry with
  | nil => exact List.Pairwise.nil
  | cons values entries ih =>
    refine pairwise_append.mpr ⟨inEntryOrder_locateEntry entry 0 values, ih (entry + 1), ?_⟩
    intro word hword word' hword'
    rw [entry_of_mem_locateEntry hword]
    exact (Nat.le_succ entry).trans (entry_le_of_mem_locateEntries hword')

end

/-! ## Every word once -/

/-- The location of the header. -/
def MaxwellDecodedPacket.source : MaxwellDecodedPacket → MaxwellGpfifoSourceLocation
  | .methods packet => packet.header
  | .control _ source => source

/-- The locations of the words that a packet was decoded from. -/
def MaxwellDecodedPacket.sources : MaxwellDecodedPacket → List MaxwellGpfifoSourceLocation
  | .control _ source => [source]
  | .methods packet =>
    packet.header ::
      if packet.mode = .immediate then [] else packet.methods.map fun method ↦ method.argumentSource

variable {header : MaxwellPushbufferWord} {payload : List MaxwellPushbufferWord}
  {packet : MaxwellDecodedPacket}

theorem Spells.sources_eq (h : Spells header payload packet) :
    packet.sources = header.location :: payload.map fun word ↦ word.location := by
  cases h with
  | noWrites hmode =>
    rw [MaxwellDecodedPacket.sources, if_neg hmode]
    rfl
  | writes hmode =>
    rw [MaxwellDecodedPacket.sources, if_neg hmode]
    refine congrArg _ (ext_getElem ?_ fun i _ _ ↦ ?_) <;> simp [Maxwell.writes]
  | _ => rfl

/-- The packets of a parse hold the words of the stream in order; the words they do not hold were
discarded with the entry of an end-segment control. -/
theorem Parses.covers {words : List MaxwellPushbufferWord} {packets : List MaxwellDecodedPacket}
    (h : Parses words packets) :
    (packets.flatMap MaxwellDecodedPacket.sources).Sublist
        (words.map fun word ↦ word.location) ∧
      ∃ discarded : List MaxwellPushbufferWord,
        (∀ word ∈ discarded, ∃ packet ∈ packets, packet.isEndSegment = true ∧
          packet.source.entryIndex = word.entry) ∧
        (packets.flatMap MaxwellDecodedPacket.sources ++
          discarded.map fun word ↦ word.location).Perm (words.map fun word ↦ word.location) := by
  induction h with
  | done => exact ⟨List.Sublist.refl _, [], nofun, .refl _⟩
  | instruction hspells hnot _ ih =>
    obtain ⟨hsublist, discarded, hdiscarded, hperm⟩ := ih
    rw [flatMap_cons, hspells.sources_eq, map_cons, map_append]
    refine ⟨(hsublist.append_left _).cons_cons _, discarded, ?_, ?_⟩
    · intro word hword
      obtain ⟨packet, hmem, hpacket⟩ := hdiscarded word hword
      exact ⟨packet, mem_cons_of_mem _ hmem, hpacket⟩
    · rw [cons_append, cons_append, append_assoc]
      exact (hperm.append_left _).cons _
  | segment hspells hend hmine hkept _ ih =>
    rename_i header mine rest packet packets _
    obtain ⟨hsublist, discarded, hdiscarded, hperm⟩ := ih
    rw [flatMap_cons, hspells.sources_eq, map_cons, map_append, map_nil,
      singleton_append]
    refine ⟨(hsublist.trans (sublist_append_right _ _)).cons_cons _, mine ++ discarded, ?_, ?_⟩
    · intro word hword
      obtain hword | hword := mem_append.mp hword
      · refine ⟨packet, mem_cons_self, hend, ?_⟩
        cases hspells <;> exact (hmine word hword).symm
      · obtain ⟨packet, hmem, hpacket⟩ := hdiscarded word hword
        exact ⟨packet, mem_cons_of_mem _ hmem, hpacket⟩
    · rw [cons_append, map_append, ← append_assoc]
      refine List.Perm.cons _ ?_
      refine (perm_append_comm.append_right _).trans ?_
      rw [append_assoc]
      exact hperm.append_left _

section

variable {location : Nat → Nat → MaxwellGpfifoSourceLocation}

theorem offset_le_of_mem_locateEntry {entry offset : Nat} {values : List UInt32}
    {word : MaxwellPushbufferWord} (h : word ∈ locateEntry location entry offset values) :
    offset ≤ word.location.wordOffset := by
  induction values generalizing offset with
  | nil => exact nomatch h
  | cons value values ih =>
    obtain rfl | h := mem_cons.mp h
    · exact le_rfl
    · exact (Nat.le_succ offset).trans (ih h)

theorem nodup_locateEntry (entry offset : Nat) (values : List UInt32) :
    ((locateEntry location entry offset values).map fun word ↦ word.location).Nodup := by
  induction values generalizing offset with
  | nil => exact nodup_nil
  | cons value values ih =>
    refine nodup_cons.mpr ⟨fun hmem ↦ ?_, ih (offset + 1)⟩
    obtain ⟨word, hword, hlocation⟩ := mem_map.mp hmem
    have hle := offset_le_of_mem_locateEntry hword
    rw [hlocation] at hle
    exact absurd hle (Nat.not_succ_le_self offset)

/-- No two words of the entries have the same location. -/
theorem nodup_locateEntries (entry : Nat) (entries : List (List UInt32)) :
    ((locateEntries location entry entries).map fun word ↦ word.location).Nodup := by
  induction entries generalizing entry with
  | nil => exact nodup_nil
  | cons values entries ih =>
    rw [locateEntries, map_append]
    refine List.Nodup.append (nodup_locateEntry entry 0 values) (ih (entry + 1)) ?_
    intro source hmem hmem'
    obtain ⟨word, hword, rfl⟩ := mem_map.mp hmem
    obtain ⟨word', hword', hlocation⟩ := mem_map.mp hmem'
    have hle := entry_le_of_mem_locateEntries hword'
    have hentry := entry_of_mem_locateEntry hword
    rw [MaxwellPushbufferWord.entry, hlocation, ← MaxwellPushbufferWord.entry, hentry] at hle
    exact absurd hle (Nat.not_succ_le_self entry)

end

/-! ## The words of a submission -/

section

variable {ε : Type} {reader : PushbufferReader ε}
  {location : Nat → Nat → MaxwellGpfifoSourceLocation}

/-- The bytes of an entry. -/
def entryBytes (values : List UInt32) : List UInt8 :=
  values.flatMap fun value ↦ toLittleEndian 4 value.toNat

/-- The reader gives access to the entries from the index `entry` on. -/
def ReadsFrom (reader : PushbufferReader ε)
    (location : Nat → Nat → MaxwellGpfifoSourceLocation) : Nat → List (List UInt32) → Prop
  | _, [] => True
  | entry, values :: entries =>
    reader.readPushbuffer entry = .ok (entryBytes values) ∧
      (∀ offset < values.length,
        reader.wordLocation entry offset = .ok (locate location entry offset)) ∧
      ReadsFrom reader location (entry + 1) entries

variable {words : SubmissionWords} {items : WordStream ε} {entry : Nat} {pending : List Nat}

theorem Yields.of_next_eq {words' : SubmissionWords} (h : words.next reader = words'.next reader)
    (hyields : Yields reader words' items) : Yields reader words items := by
  cases hyields with
  | done hnext => exact .done (h.trans hnext)
  | item hnext hrest => exact .item (h.trans hnext) hrest

theorem Yields.unique {items' : WordStream ε} (h : Yields reader words items)
    (h' : Yields reader words items') : items = items' := by
  induction h generalizing items' with
  | done hnext =>
    cases h' with
    | done => rfl
    | item hnext' => rw [hnext] at hnext'; cases hnext'
  | item hnext hrest ih =>
    cases h' with
    | done hnext' => rw [hnext] at hnext'; cases hnext'
    | item hnext' hrest' =>
      rw [hnext] at hnext'
      cases hnext'
      rw [ih hrest']

theorem load_of_unread (h : words.currentOffset ≠ words.currentBytes.length) (pending : List Nat) :
    SubmissionWords.load reader pending words = .ok true words := by
  cases pending with
  | nil =>
    change Outcome.ok (decide _) words = _
    rw [decide_eq_true h]
  | cons entry pending =>
    rw [SubmissionWords.load, Method.bind_of_eq_ok (a := true) (t := words)]
    · rfl
    · change Outcome.ok (decide _) words = _
      rw [decide_eq_true h]

/-- At the end of an entry the next one is loaded. -/
theorem next_of_read {bytes : List UInt8} (hend : words.currentOffset = words.currentBytes.length)
    (hpending : words.pending = entry :: pending) (hfailed : words.failed = false)
    (hread : reader.readPushbuffer entry = .ok bytes) :
    words.next reader = SubmissionWords.next reader ⟨pending, entry, bytes, 0, false⟩ := by
  have hload : SubmissionWords.load reader (entry :: pending) words =
      SubmissionWords.load reader pending ⟨pending, entry, bytes, 0, false⟩ := by
    rw [SubmissionWords.load, Method.bind_of_eq_ok (a := false) (t := words), hread,
      if_neg Bool.false_ne_true]
    · change SubmissionWords.load reader pending ⟨pending, entry, bytes, 0, words.failed⟩ = _
      rw [hfailed]
    · change Outcome.ok (decide _) words = _
      rw [decide_eq_false (not_not.mpr hend)]
  rw [SubmissionWords.next, SubmissionWords.next, hfailed, if_neg Bool.false_ne_true,
    if_neg Bool.false_ne_true, hpending, hload]

/-- The next word of a loaded entry. -/
theorem next_eq_word {before after : List UInt8} {value : UInt32}
    {source : MaxwellGpfifoSourceLocation}
    (hlocation : reader.wordLocation entry (before.length / 4) = .ok source) :
    SubmissionWords.next reader
        ⟨pending, entry, before ++ (toLittleEndian 4 value.toNat ++ after), before.length, false⟩ =
      .ok (some (.ok ⟨value, source⟩))
        ⟨pending, entry, before ++ (toLittleEndian 4 value.toNat ++ after), before.length + 4,
          false⟩ := by
  have hlength : before.length + 4 ≤
      (before ++ (toLittleEndian 4 value.toNat ++ after)).length := by
    rw [length_append, length_append, length_toLittleEndian]
    omega
  have hvalue : UInt32.ofNat (fromLittleEndian
      (((before ++ (toLittleEndian 4 value.toNat ++ after)).drop before.length).take 4)) =
      value := by
    have htake : (toLittleEndian 4 value.toNat ++ after).take 4 = toLittleEndian 4 value.toNat :=
      take_left' (length_toLittleEndian 4 _)
    rw [drop_left, htake, fromLittleEndian_toLittleEndian,
      Nat.mod_eq_of_lt (by simpa using value.toNat_lt), UInt32.ofNat_toNat]
  rw [SubmissionWords.next, if_neg Bool.false_ne_true, load_of_unread (by dsimp only; omega)]
  dsimp only
  rw [if_pos hlength, hlocation, hvalue]

theorem yields_locateEntry {offset : Nat} {before : List UInt8} {values : List UInt32}
    (hlocation : ∀ index < values.length,
      reader.wordLocation entry (offset + index) = .ok (locate location entry (offset + index)))
    (hbefore : before.length = 4 * offset)
    (hend : Yields reader ⟨pending, entry, before ++ entryBytes values,
      (before ++ entryBytes values).length, false⟩ items) :
    Yields reader ⟨pending, entry, before ++ entryBytes values, before.length, false⟩
      ((locateEntry location entry offset values).map .ok ++ items) := by
  induction values generalizing before offset with
  | nil =>
    rw [entryBytes, flatMap_nil, append_nil] at hend ⊢
    exact hend
  | cons value values ih =>
    have hhead : reader.wordLocation entry (before.length / 4) =
        .ok (locate location entry offset) := by
      rw [hbefore, Nat.mul_div_cancel_left offset (by decide)]
      exact hlocation 0 (Nat.succ_pos _)
    have hsplit : before ++ entryBytes (value :: values) =
        (before ++ toLittleEndian 4 value.toNat) ++ entryBytes values := by
      rw [entryBytes, entryBytes, flatMap_cons, append_assoc]
    have hlength : (before ++ toLittleEndian 4 value.toNat).length = before.length + 4 := by
      rw [length_append, length_toLittleEndian]
    refine .item (next_eq_word hhead) ?_
    change Yields reader ⟨pending, entry, before ++ entryBytes (value :: values),
      before.length + 4, false⟩ _
    rw [hsplit, ← hlength]
    refine ih (fun index hindex ↦ ?_) (by omega) (by rwa [← hsplit])
    have htail := hlocation (index + 1) (Nat.succ_lt_succ hindex)
    rwa [Nat.add_comm index, ← Nat.add_assoc] at htail

/-- The iterator yields the words of the entries, one after the other. -/
theorem yields_locateEntries {entries : List (List UInt32)}
    (hend : words.currentOffset = words.currentBytes.length)
    (hpending : words.pending = List.range' entry entries.length) (hfailed : words.failed = false)
    (hreads : ReadsFrom reader location entry entries) :
    Yields reader words ((locateEntries location entry entries).map .ok) := by
  induction entries generalizing entry words with
  | nil =>
    have hload : SubmissionWords.load reader words.pending words = .ok false words := by
      rw [hpending]
      change Outcome.ok (decide _) words = _
      rw [decide_eq_false (not_not.mpr hend)]
    have hnext : words.next reader = .ok none words := by
      rw [SubmissionWords.next, hfailed, if_neg Bool.false_ne_true, hload]
    exact .done hnext
  | cons values entries ih =>
    obtain ⟨hread, hlocation, hreads⟩ := hreads
    rw [length_cons, List.range'_succ] at hpending
    refine .of_next_eq (next_of_read hend hpending hfailed hread) ?_
    rw [locateEntries, map_append]
    change Yields reader ⟨_, entry, [] ++ entryBytes values, ([] : List UInt8).length, false⟩ _
    refine yields_locateEntry (fun index hindex ↦ ?_) rfl (ih rfl rfl rfl hreads)
    rw [Nat.zero_add]
    exact hlocation index hindex

end

/-! ## The decoder and the grammar -/

/-- **Pushbuffer grammar.** For every list of entries, the decoder returns the packets `packets`
exactly if the concatenation of the entries parses as `packets`; it fails exactly if there is no
parse. The packets hold the words of the stream in order and each once, except for those that an
end-segment control of the same entry discarded; and the concatenation of the entries is what the
iterator over a submission with these entries yields. -/
theorem pushbuffer_grammar {ε : Type} (location : Nat → Nat → MaxwellGpfifoSourceLocation)
    (entries : List (List UInt32)) :
    (∀ packets,
      decodeMaxwellPushbuffer ((locateEntries location 0 entries).map .ok : WordStream ε) =
        .ok packets ↔ Parses (locateEntries location 0 entries) packets) ∧
    ((∃ error,
      decodeMaxwellPushbuffer ((locateEntries location 0 entries).map .ok : WordStream ε) =
        .error error) ↔ ¬∃ packets, Parses (locateEntries location 0 entries) packets) ∧
    (∀ packets, Parses (locateEntries location 0 entries) packets →
      (packets.flatMap MaxwellDecodedPacket.sources).Nodup ∧
      (packets.flatMap MaxwellDecodedPacket.sources).Sublist
        ((locateEntries location 0 entries).map fun word ↦ word.location) ∧
      ∃ discarded : List MaxwellPushbufferWord,
        (∀ word ∈ discarded, ∃ packet ∈ packets, packet.isEndSegment = true ∧
          packet.source.entryIndex = word.entry) ∧
        (packets.flatMap MaxwellDecodedPacket.sources ++
          discarded.map fun word ↦ word.location).Perm
          ((locateEntries location 0 entries).map fun word ↦ word.location)) ∧
    (∀ reader : PushbufferReader ε, reader.pushbuffers = List.range entries.length →
      ReadsFrom reader location 0 entries → ∀ items,
      Yields reader (.new reader) items ↔ items = (locateEntries location 0 entries).map .ok) := by
  have hdecode : ∀ packets,
      decodeMaxwellPushbuffer ((locateEntries location 0 entries).map .ok : WordStream ε) =
        .ok packets ↔ Parses (locateEntries location 0 entries) packets := fun _ ↦
    decodeMaxwellPushbuffer_eq_ok_iff (inEntryOrder_locateEntries 0 entries)
  refine ⟨hdecode, ⟨?_, ?_⟩, fun packets hparses ↦ ?_, fun reader hentries hreads items ↦ ?_⟩
  · rintro ⟨error, herror⟩ ⟨packets, hparses⟩
    rw [(hdecode packets).mpr hparses] at herror
    cases herror
  · intro hnone
    cases hresult :
        decodeMaxwellPushbuffer ((locateEntries location 0 entries).map .ok : WordStream ε) with
    | error error => exact ⟨error, rfl⟩
    | ok packets => exact absurd ⟨packets, (hdecode packets).mp hresult⟩ hnone
  · obtain ⟨hsublist, hdiscarded⟩ := hparses.covers
    exact ⟨(nodup_locateEntries 0 entries).sublist hsublist, hsublist, hdiscarded⟩
  · have hyields : Yields reader (.new reader) ((locateEntries location 0 entries).map .ok) := by
      refine yields_locateEntries rfl ?_ rfl hreads
      rw [SubmissionWords.new, hentries, range_eq_range']
    exact ⟨fun h ↦ h.unique hyields, fun h ↦ h ▸ hyields⟩

/-- An end-segment control that discards an invalid word, and a packet whose arguments stand in the
entry behind it. -/
theorem pushbuffer_grammar_crossing :
    decodeMaxwellPushbuffer ((locateEntries (fun _ _ ↦ ⟨3, 7, 0, 0x8000, 0, 11, 5⟩) 0
        [[0xe0000000, 0x40000000], [0x20020100], [0xaaaa, 0xbbbb]]).map .ok : WordStream Unit) =
      .ok [.control .endSegment ⟨3, 7, 0, 0x8000, 0, 11, 5⟩,
        .methods ⟨.incrementing, ⟨3, 7, 1, 0x8000, 0, 11, 5⟩, some 0,
          [⟨0x400, 0xaaaa, ⟨3, 7, 2, 0x8000, 0, 11, 5⟩⟩,
            ⟨0x404, 0xbbbb, ⟨3, 7, 2, 0x8000, 1, 11, 5⟩⟩]⟩] := by
  refine ((pushbuffer_grammar _ _).1 _).mpr ?_
  have hend : Spells ⟨0xe0000000, ⟨3, 7, 0, 0x8000, 0, 11, 5⟩⟩ []
      (.control .endSegment ⟨3, 7, 0, 0x8000, 0, 11, 5⟩) :=
    .endSegment (Nat.two_pow_pos 29) rfl
  have hwrites : Spells ⟨0x20020100, ⟨3, 7, 1, 0x8000, 0, 11, 5⟩⟩
      [⟨0xaaaa, ⟨3, 7, 2, 0x8000, 0, 11, 5⟩⟩, ⟨0xbbbb, ⟨3, 7, 2, 0x8000, 1, 11, 5⟩⟩]
      (.methods ⟨.incrementing, ⟨3, 7, 1, 0x8000, 0, 11, 5⟩, some 0, writes .incrementing 0x100
        [⟨0xaaaa, ⟨3, 7, 2, 0x8000, 0, 11, 5⟩⟩, ⟨0xbbbb, ⟨3, 7, 2, 0x8000, 1, 11, 5⟩⟩]⟩) :=
    .writes (by decide) (by decide) (by decide) (by decide) (by decide) rfl
  have hdiscarded : ∀ word ∈ [(⟨0x40000000, ⟨3, 7, 0, 0x8000, 1, 11, 5⟩⟩ : MaxwellPushbufferWord)],
      word.entry = 0 := by
    decide
  have hrest := Parses.instruction hwrites rfl .done
  have hparses := Parses.segment hend rfl hdiscarded (by decide) hrest
  exact hparses

end Nixe.Maxwell
