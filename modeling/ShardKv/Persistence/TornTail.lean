import ShardKv.Persistence.WalCodec

/-!
# Reading logs back, whole and torn

A crash can cut the last segment anywhere. Reading what is left should return
the records whose frames were written completely, and nothing else. This holds
as long as every payload is shorter than `2 ^ 32` bytes: the frame header keeps
the length in 32 bits and writing does not check that it fits.
-/
namespace ShardKv

open WalBytes LegacyRecordHeader WalFrameCursor EncodedFramePayload List LegacyRecordCursor
variable {before : Bytes} {cursor : ℕ}

/-- What the format can represent. -/
structure MutationRecord.Loggable (record : MutationRecord) : Prop where
  key_lt : record.key.length < 2 ^ 32
  value_lt : record.value.length < 2 ^ 32
  timestamp_lt : record.timestampMs < 2 ^ 64
  deadline_lt : ∀ deadline ∈ record.expireAtMs, deadline < 2 ^ 63
  governance_lt : ∀ token ∈ record.governance, token.length < 2 ^ 32
  governance_set : record.governance.isSome → record.op = .set

/-- The log does not say which shard a record came from. -/
def MutationRecord.withoutOrigin (record : MutationRecord) : MutationRecord :=
  { record with shardId := 0, sequence := 0 }

/-- A record and whether its frame may be compressed. -/
structure LogEntry where
  record : MutationRecord
  compress : Bool
  loggable : record.Loggable

open LogEntry
theorem readU32At_append_zero (n : ℕ) (after : Bytes) :
    readU32At (leBytes 4 n ++ after) 0 = n % 2 ^ 32 := by
  rw [readU32At, byteSlice_append_zero after (length_leBytes 4 n), leValue_leBytes]
  norm_num

theorem readU64At_append_zero (n : ℕ) (after : Bytes) :
    readU64At (leBytes 8 n ++ after) 0 = n % 2 ^ 64 := by
  rw [readU64At, byteSlice_append_zero after (length_leBytes 8 n), leValue_leBytes]
  norm_num

variable (after : Bytes)

theorem readU32At_append_right (h : before.length ≤ cursor) :
    readU32At (before ++ after) cursor = readU32At after (cursor - before.length) := by
  rw [readU32At, byteSlice_append_right after h, readU32At]

theorem readU64At_append_right (h : before.length ≤ cursor) :
    readU64At (before ++ after) cursor = readU64At after (cursor - before.length) := by
  rw [readU64At, byteSlice_append_right after h, readU64At]

theorem readU32At_append_left (h : cursor + 4 ≤ before.length) :
    readU32At (before ++ after) cursor = readU32At before cursor := by
  rw [readU32At, byteSlice_append_left after h, readU32At]

/-- A signed number is read back from its two's complement. -/
theorem bmod_toNat_emod (n : ℤ) :
    (((n % 2 ^ 64).toNat % 2 ^ 64 : ℕ) : ℤ).bmod (2 ^ 64) = n.bmod (2 ^ 64) := by
  have hnonneg : 0 ≤ n % 2 ^ 64 := Int.emod_nonneg n (by norm_num)
  have hcast : (((n % 2 ^ 64).toNat % 2 ^ 64 : ℕ) : ℤ) = n % 2 ^ 64 := by
    rw [Nat.mod_eq_of_lt (by omega), Int.toNat_of_nonneg hnonneg]
  rw [hcast]
  exact_mod_cast Int.emod_bmod n (2 ^ 64)

theorem bmod_two_pow_eq_self {n : ℤ} (hlower : -2 ^ 63 ≤ n) (hupper : n < 2 ^ 63) :
    n.bmod (2 ^ 64) = n :=
  Int.bmod_eq_of_le (by norm_num; omega) (by norm_num; omega)

theorem expireRaw_some {deadline : ℕ} (h : deadline < 2 ^ 63) :
    WalRecordCodec.expireRaw (some deadline) = deadline := by
  unfold WalRecordCodec.expireRaw
  exact bmod_two_pow_eq_self (by omega) (by omega)

/-- A stored deadline is read back from its eight bytes. -/
theorem expireRaw_bmod {expireAtMs : Option ℕ} (h : ∀ deadline ∈ expireAtMs, deadline < 2 ^ 63) :
    (WalRecordCodec.expireRaw expireAtMs).bmod (2 ^ 64) = WalRecordCodec.expireRaw expireAtMs := by
  cases expireAtMs with
  | none => exact bmod_two_pow_eq_self (by decide) (by decide)
  | some deadline =>
    rw [expireRaw_some (h deadline rfl)]
    have hlt := h deadline rfl
    exact bmod_two_pow_eq_self (by omega) (by omega)

theorem expireAtMs_of_expireRaw (header : LegacyRecordHeader) {expireAtMs : Option ℕ}
    (h : ∀ deadline ∈ expireAtMs, deadline < 2 ^ 63)
    (hheader : header.expireRaw = WalRecordCodec.expireRaw expireAtMs) :
    header.expireAtMs = expireAtMs := by
  rw [LegacyRecordHeader.expireAtMs, hheader]
  cases expireAtMs with
  | none => rfl
  | some deadline =>
    rw [expireRaw_some (h deadline rfl), if_neg (by omega), Int.toNat_natCast]

namespace LegacyRecordCursor

open WalRecordCodec

/-- The header that is read back for a record. -/
def headerOf (record : MutationRecord) : LegacyRecordHeader where
  opByte := encodeOp record
  keyLen := record.key.length
  valueLen := record.value.length
  timestampMs := record.timestampMs
  expireRaw := WalRecordCodec.expireRaw record.expireAtMs

def tokenLen (governance : Option Bytes) : ℕ := (governance.map List.length).getD 0

/-- Everything of a record that its checksum covers. -/
def recordBody (record : MutationRecord) : Bytes :=
  encodeLegacyHeader record ++ (record.key ++ (record.value ++ encodeGovernance record.governance))

@[simp] theorem length_encodeLegacyHeader (record : MutationRecord) :
    (encodeLegacyHeader record).length = bodyStart := by
  simp [encodeLegacyHeader, i64Bytes, bodyStart, legacyRecordHeaderTailLen]

theorem length_encodeGovernance (governance : Option Bytes) :
    (encodeGovernance governance).length = governance.isSome.toNat * 4 + tokenLen governance := by
  cases governance <;> simp [encodeGovernance, tokenLen]

variable {record : MutationRecord}

theorem hasGovernance_headerOf (h : record.Loggable) :
    (headerOf record).hasGovernance = record.governance.isSome := by
  have hset := h.governance_set
  cases hop : record.op <;> cases hgov : record.governance <;>
    simp_all [headerOf, hasGovernance, encodeOp]

theorem decodeOp_encodeOp (record : MutationRecord) :
    decodeOp (encodeOp record) = .ok record.op := by
  cases hop : record.op <;> cases hgov : record.governance <;>
    simp [encodeOp, decodeOp, hop, hgov]

/-- The fixed-size fields of a record after its operation byte. -/
def headerFields (record : MutationRecord) (tail : Bytes) : Bytes :=
  leBytes 4 record.key.length ++ (leBytes 4 record.value.length ++ (leBytes 8 record.timestampMs ++
      (leBytes 8 (WalRecordCodec.expireRaw record.expireAtMs % 2 ^ 64).toNat ++ tail)))

theorem encodeLegacyHeader_append (record : MutationRecord) (tail : Bytes) :
    encodeLegacyHeader record ++ tail = encodeOp record :: headerFields record tail := by
  simp [encodeLegacyHeader, headerFields, i64Bytes]

theorem readHeader_record (h : record.Loggable) (tail : Bytes) :
    readHeader (encodeLegacyHeader record ++ tail) = some (headerOf record) := by
  have hlen : legacyRecordHeaderTailLen ≤ (headerFields record tail).length := by
    simp only [headerFields, length_append, length_leBytes, legacyRecordHeaderTailLen]
    omega
  have hkey : readU32At (headerFields record tail) 0 = record.key.length := by
    rw [headerFields, readU32At_append_zero, Nat.mod_eq_of_lt h.key_lt]
  have hvalue : readU32At (headerFields record tail) 4 = record.value.length := by
    rw [headerFields, readU32At_append_right _ (by simp), length_leBytes, Nat.sub_self,
      readU32At_append_zero, Nat.mod_eq_of_lt h.value_lt]
  have htime : readU64At (headerFields record tail) (4 + 4) = record.timestampMs := by
    rw [headerFields, readU64At_append_right _ (by simp), readU64At_append_right _ (by simp),
      length_leBytes, length_leBytes, Nat.add_sub_cancel, Nat.sub_self,
      readU64At_append_zero, Nat.mod_eq_of_lt h.timestamp_lt]
  have hdeadline : readU64At (headerFields record tail) (4 + 4 + 8) =
      (WalRecordCodec.expireRaw record.expireAtMs % 2 ^ 64).toNat % 2 ^ 64 := by
    rw [headerFields, readU64At_append_right _ (by simp), readU64At_append_right _ (by simp),
      readU64At_append_right _ (by simp)]
    exact readU64At_append_zero _ tail
  rw [encodeLegacyHeader_append, readHeader, if_pos hlen, headerOf, Option.some.injEq,
    LegacyRecordHeader.mk.injEq]
  refine ⟨rfl, hkey, hvalue, htime, ?_⟩
  have hraw : readI64At (encodeOp record :: headerFields record tail) (1 + 4 + 4 + 8) =
      (readU64At (headerFields record tail) (4 + 4 + 8) : ℤ).bmod (2 ^ 64) := rfl
  rw [hraw, hdeadline, bmod_toNat_emod, expireRaw_bmod h.deadline_lt]

theorem length_recordBody (h : record.Loggable) :
    (recordBody record).length + walCrcLen = bodyStart +
      (minimumBodyLen (headerOf record) + tokenLen record.governance) := by
  have hgov := hasGovernance_headerOf h
  simp only [recordBody, length_append, length_encodeLegacyHeader, length_encodeGovernance,
    minimumBodyLen, governanceSizeLen, hgov]
  simp only [headerOf]
  omega

theorem readGovernanceLen_record (h : record.Loggable) (rest : Bytes) :
    readGovernanceLen (recordBody record ++ rest) (headerOf record) =
      tokenLen record.governance := by
  rw [readGovernanceLen, hasGovernance_headerOf h]
  cases hgov : record.governance with
  | none => rfl
  | some token =>
    have htoken : token.length < 2 ^ 32 := h.governance_lt token hgov
    have hbytes : recordBody record ++ rest =
        (encodeLegacyHeader record ++ (record.key ++ record.value)) ++
          (leBytes 4 token.length ++ (token ++ rest)) := by
      simp [recordBody, hgov, encodeGovernance]
    have hat : bodyStart + (headerOf record).keyLen + (headerOf record).valueLen =
          (encodeLegacyHeader record ++ (record.key ++ record.value)).length := by
      simp only [headerOf, length_append, length_encodeLegacyHeader]
      omega
    rw [hbytes, hat, if_pos Option.isSome_some, readU32At_append_right _ le_rfl, Nat.sub_self,
      readU32At_append_zero, Nat.mod_eq_of_lt htoken]
    rfl

/-- The length of the token is known once the part before it has been read. -/
theorem readGovernanceLen_append (header : LegacyRecordHeader) (after : Bytes)
    (hlen : minimumBodyLen header ≤ before.length - bodyStart) :
    readGovernanceLen (before ++ after) header = readGovernanceLen before header := by
  unfold readGovernanceLen
  cases hgov : header.hasGovernance with
  | false => rfl
  | true =>
    simp only [minimumBodyLen, governanceSizeLen, hgov, Bool.toNat_true, walCrcLen] at hlen
    rw [if_pos rfl, if_pos rfl, readU32At_append_left _ (by omega)]

theorem buildRecord_record (h : record.Loggable) (rest : Bytes) :
    buildRecord (recordBody record ++ rest) (headerOf record) bodyStart
      (bodyStart + record.key.length)
      (bodyStart + record.key.length + record.value.length +
        (headerOf record).governanceSizeLen) (tokenLen record.governance) =
      .ok record.withoutOrigin := by
  have hkey : byteSlice (recordBody record ++ rest) bodyStart
      record.key.length = record.key := by
    rw [recordBody, append_assoc, byteSlice_append_right _ (by simp),
      length_encodeLegacyHeader, Nat.sub_self, append_assoc, byteSlice_append_zero _ rfl]
  have hvalue : byteSlice (recordBody record ++ rest)
      (bodyStart + record.key.length) record.value.length = record.value := by
    rw [recordBody, append_assoc, byteSlice_append_right _ (by simp),
      length_encodeLegacyHeader, Nat.add_sub_cancel_left, append_assoc,
      byteSlice_append_right _ le_rfl, Nat.sub_self, append_assoc,
      byteSlice_append_zero _ rfl]
  have hgovernance : (if (headerOf record).hasGovernance then
      some (byteSlice (recordBody record ++ rest)
        (bodyStart + record.key.length + record.value.length +
          (headerOf record).governanceSizeLen) (tokenLen record.governance))
      else none) = record.governance := by
    rw [governanceSizeLen, hasGovernance_headerOf h]
    cases hgov : record.governance with
    | none => rfl
    | some token =>
      have hbytes : recordBody record ++ rest =
          (encodeLegacyHeader record ++ (record.key ++ (record.value ++
            leBytes 4 token.length))) ++ (token ++ rest) := by
        simp [recordBody, hgov, encodeGovernance]
      have hat : bodyStart + record.key.length + record.value.length + 4 =
          (encodeLegacyHeader record ++ (record.key ++ (record.value ++
            leBytes 4 token.length))).length := by
        simp only [length_append, length_encodeLegacyHeader, length_leBytes]
        omega
      simp only [Option.isSome_some, Bool.toNat_true, Nat.one_mul, if_true]
      rw [hbytes, hat, byteSlice_append_right _ le_rfl, Nat.sub_self]
      exact congrArg some (byteSlice_append_zero rest rfl)
  have hdeadline := expireAtMs_of_expireRaw (headerOf record) h.deadline_lt rfl
  have hop : decodeOp (headerOf record).opByte = .ok record.op := decodeOp_encodeOp record
  have hkeyLen : (headerOf record).keyLen = record.key.length := rfl
  have hvalueLen : (headerOf record).valueLen = record.value.length := rfl
  rw [buildRecord, hop, hkeyLen, hvalueLen, hkey, hvalue, hgovernance, hdeadline]
  rfl

variable (env : WalPrimitives)

theorem nextRecord_record (h : record.Loggable) (rest : Bytes) :
    nextRecord env (encodeLegacy env record ++ rest) = .ok (some (record.withoutOrigin, rest)) := by
  have hbytes : encodeLegacy env record ++ rest =
      recordBody record ++ (leBytes 4 (env.crc32 (recordBody record)).toNat ++ rest) := by
    rw [encodeLegacy, withCrc, append_assoc, recordBody]
  have hbody := length_recordBody h
  have hgov := readGovernanceLen_record h (leBytes 4 (env.crc32 (recordBody record)).toNat ++ rest)
  have hlong : ¬(encodeLegacy env record ++ rest).length - bodyStart <
      minimumBodyLen (headerOf record) + tokenLen record.governance := by
    rw [hbytes]
    simp only [length_append, length_leBytes, walCrcLen] at hbody ⊢
    omega
  have hend : bodyStart + record.key.length + record.value.length +
      (headerOf record).governanceSizeLen + tokenLen record.governance =
        (recordBody record).length := by
    simp only [minimumBodyLen, headerOf, walCrcLen] at hbody ⊢
    omega
  have hcrc : readU32At (recordBody record ++ (leBytes 4 (env.crc32 (recordBody record)).toNat ++
      rest)) (recordBody record).length = (env.crc32 (recordBody record)).toNat := by
    rw [readU32At_append_right _ le_rfl, Nat.sub_self, readU32At_append_zero,
      Nat.mod_eq_of_lt (env.crc32 (recordBody record)).toNat_lt]
  have hread : readHeader (encodeLegacy env record ++ rest) = some (headerOf record) := by
    rw [encodeLegacy, withCrc, append_assoc, append_assoc, readHeader_record h]
  rw [nextRecord, hread]
  simp only [readBody]
  rw [if_neg (by omega), hbytes, hgov, ← hbytes, if_neg hlong, hbytes]
  simp only [readCompleteBody]
  have hkeyLen : (headerOf record).keyLen = record.key.length := rfl
  have hvalueLen : (headerOf record).valueLen = record.value.length := rfl
  rw [hkeyLen, hvalueLen, hend, hcrc, take_left, if_pos rfl, buildRecord_record h,
    drop_length_add_append]
  rfl

/-- A record that has not been written completely ends the log. -/
theorem nextRecord_torn (h : record.Loggable) {part : Bytes}
    (hpart : part <+: encodeLegacy env record) (hne : part ≠ encodeLegacy env record) :
    nextRecord env part = .ok none := by
  have hwhole : encodeLegacy env record =
      recordBody record ++ leBytes 4 (env.crc32 (recordBody record)).toNat := rfl
  have hbody := length_recordBody h
  have hshort : part.length < bodyStart +
      (minimumBodyLen (headerOf record) + tokenLen record.governance) := by
    have hlt := hpart.length_le.lt_of_ne fun heq => hne (hpart.eq_of_length heq)
    rw [hwhole, length_append, length_leBytes] at hlt
    rw [walCrcLen] at hbody
    omega
  by_cases hheader : part.length < bodyStart
  · -- not even the fixed part
    have hnone : readHeader part = none := by
      cases part with
      | nil => rfl
      | cons =>
        rw [length_cons, bodyStart] at hheader
        rw [readHeader, if_neg (by omega)]
    rw [nextRecord, hnone]
  · have hstart : encodeLegacyHeader record <+: part := by
      refine prefix_of_prefix_length_le ?_ hpart (by simp; omega)
      rw [hwhole, recordBody, append_assoc]
      exact prefix_append _ _
    obtain ⟨tail, rfl⟩ := hstart
    rw [nextRecord, readHeader_record h]
    simp only [readBody]
    split_ifs with hminimum hbodyLen
    · rfl
    · rfl
    · -- the length of the token was complete, so the whole size is known
      obtain ⟨more, hmore⟩ := hpart
      have hgov : readGovernanceLen (encodeLegacyHeader record ++ tail) (headerOf record) =
          tokenLen record.governance := by
        rw [← readGovernanceLen_append _ more (by omega), hmore, hwhole, readGovernanceLen_record h]
      rw [hgov] at hbodyLen
      omega

end LegacyRecordCursor

section Frames

open WalRecordCodec (encodeFrameHeader nextFramedRecord decodeSingleLegacyRecord)
variable (env : WalPrimitives) (flags : UInt8) (payloadLen : ℕ)

theorem length_encodeFrameHeader :
    (encodeFrameHeader flags payloadLen).length = walFrameHeaderLen := by
  simp [encodeFrameHeader, walFrameMagic, walFrameHeaderLen]

theorem readHeader_frame (tail : Bytes) :
    WalFrameCursor.readHeader (encodeFrameHeader flags payloadLen ++ tail) =
      some { flags, payloadLen := payloadLen % 2 ^ 32 } := by
  generalize hbytes : encodeFrameHeader flags payloadLen ++ tail = bytes
  have hlen : ¬bytes.length < walFrameHeaderLen := by
    rw [← hbytes, length_append, length_encodeFrameHeader]
    omega
  have hmagic : byteSlice bytes 0 walFrameMagic.length = walFrameMagic := by
    rw [← hbytes, encodeFrameHeader, append_assoc, byteSlice_append_zero _ rfl]
  have hsize : readU32At bytes (4 + 1) = payloadLen % 2 ^ 32 := by
    rw [← hbytes, encodeFrameHeader, ← append_assoc, append_assoc,
      readU32At_append_right _ (by simp [walFrameMagic])]
    exact readU32At_append_zero payloadLen tail
  rw [WalFrameCursor.readHeader, if_neg hlen, if_pos hmagic, hsize]
  rw [← hbytes]
  rfl

/-- What is read after a frame header, in terms of what follows it. -/
theorem nextPayload_frame (tail : Bytes) :
    nextPayload env (encodeFrameHeader flags payloadLen ++ tail) =
      if tail.length < payloadLen % 2 ^ 32 + 4 then .ok none
      else if readU32At tail (payloadLen % 2 ^ 32) =
          (env.crc32 (encodeFrameHeader flags payloadLen ++
            tail.take (payloadLen % 2 ^ 32))).toNat then
        (decodePayload env flags (tail.take (payloadLen % 2 ^ 32))).map
          fun raw => some (raw, tail.drop (payloadLen % 2 ^ 32 + 4))
      else .ok none := by
  have hheader := length_encodeFrameHeader flags payloadLen
  have hread := readHeader_frame flags payloadLen tail
  generalize payloadLen % 2 ^ 32 = len at hread ⊢
  generalize hbytes : encodeFrameHeader flags payloadLen ++ tail = bytes at hread ⊢
  have htail : bytes.length - walFrameHeaderLen = tail.length := by
    rw [← hbytes, length_append, hheader]
    omega
  have hcrc : readU32At bytes (walFrameHeaderLen + len) = readU32At tail len := by
    rw [← hbytes, readU32At_append_right _ (by omega), hheader, Nat.add_sub_cancel_left]
  have htake : bytes.take (walFrameHeaderLen + len) =
      encodeFrameHeader flags payloadLen ++ tail.take len := by
    rw [← hbytes, ← hheader, take_length_add_append]
  have hpayload : byteSlice bytes walFrameHeaderLen len = tail.take len := by
    rw [← hbytes, byteSlice_append_right _ hheader.le, hheader, Nat.sub_self]
    rfl
  have hdrop : bytes.drop (walFrameHeaderLen + len + walCrcLen) = tail.drop (len + 4) := by
    rw [← hbytes, ← hheader, add_assoc, drop_length_add_append]
    rfl
  simp only [nextPayload, hread, readPayload, readCompletePayload, htail, hcrc, htake, hpayload,
    hdrop]
  rfl

section

variable {tail : Bytes} (more : Bytes) (h : payloadLen % 2 ^ 32 + 4 ≤ tail.length)
include h

/-- Reading a frame does not look past the length its header gives. -/
theorem nextPayload_append :
    nextPayload env (encodeFrameHeader flags payloadLen ++ (tail ++ more)) =
      (nextPayload env (encodeFrameHeader flags payloadLen ++ tail)).map
        (Option.map fun out => (out.1, out.2 ++ more)) := by
  rw [nextPayload_frame, nextPayload_frame]
  generalize payloadLen % 2 ^ 32 = len at h ⊢
  have hcrc := readU32At_append_left more h
  have htake : (tail ++ more).take len = tail.take len := take_append_of_le_length (by omega)
  have hdrop : (tail ++ more).drop (len + 4) = tail.drop (len + 4) ++ more :=
    drop_append_of_le_length h
  have hshort : ¬tail.length < len + 4 := by omega
  have hlong : ¬(tail ++ more).length < len + 4 := by
    rw [length_append]
    omega
  rw [if_neg hlong, if_neg hshort, hcrc, htake, hdrop]
  split
  · cases decodePayload env flags (tail.take len) <;> rfl
  · rfl

theorem nextFramedRecord_append :
    nextFramedRecord env (encodeFrameHeader flags payloadLen ++ (tail ++ more)) =
      (nextFramedRecord env (encodeFrameHeader flags payloadLen ++ tail)).map
        (Option.map fun out => (out.1, out.2 ++ more)) := by
  unfold nextFramedRecord
  rw [nextPayload_append env flags payloadLen more h]
  cases nextPayload env (encodeFrameHeader flags payloadLen ++ tail) with
  | error => rfl
  | ok payload =>
    cases payload with
    | none => rfl
    | some out =>
      obtain ⟨raw, rest⟩ := out
      simp only [Except.map, Option.map_some]
      cases decodeSingleLegacyRecord env raw <;> rfl

end
end Frames

namespace LogEntry

open WalRecordCodec
variable (env : WalPrimitives) (entry : LogEntry)

def payload : EncodedFramePayload := fromRaw env (encodeLegacy env entry.record) entry.compress

/-- What the header of the frame has to hold. -/
abbrev size : ℕ := (entry.payload env).bytes.length

def frame : Bytes := encodeFrame env entry.record entry.compress

/-- What is left of a frame after its header. -/
def frameTail : Bytes :=
  (entry.payload env).bytes ++ leBytes 4 (env.crc32 (encodeFrameHeader (entry.payload env).flags
    (entry.payload env).bytes.length ++ (entry.payload env).bytes)).toNat

theorem frame_eq : entry.frame env =
      encodeFrameHeader (entry.payload env).flags (entry.size env) ++ entry.frameTail env := by
  rw [frame, frameTail, encodeFrame, withCrc, append_assoc]
  rfl

theorem length_frameTail : (entry.frameTail env).length = entry.size env + 4 := by
  rw [frameTail, length_append, length_leBytes]

theorem magic_prefix_frame : walFrameMagic <+: entry.frame env := by
  rw [frame_eq, encodeFrameHeader, append_assoc]
  exact prefix_append _ _

theorem decodePayload_payload :
    decodePayload env (entry.payload env).flags (entry.payload env).bytes =
      .ok (encodeLegacy env entry.record) := by
  have hplain : ∀ raw, decodePayload env (plain raw).flags
      (plain raw).bytes = .ok raw := by
    intro raw
    have hflag : ¬(plain raw).flags &&& walFlagCompressed ≠ 0 := by
      simp [plain]
    rw [decodePayload, if_neg hflag, plain]
  rw [payload, fromRaw]
  split_ifs
  · simp only [compressedWhenSmaller]
    split_ifs
    · have hflag : walFlagCompressed &&& walFlagCompressed ≠ 0 := by decide
      rw [decodePayload, if_pos hflag, env.decompress_compress]
      rfl
    · exact hplain _
  · exact hplain _

theorem decodeSingleLegacyRecord_encodeLegacy :
    decodeSingleLegacyRecord env (encodeLegacy env entry.record) =
      .ok entry.record.withoutOrigin := by
  have h := nextRecord_record env entry.loggable []
  rw [append_nil] at h
  rw [decodeSingleLegacyRecord, h]
  rfl

/-- The size of a record in the unframed format. -/
def rawLen (record : MutationRecord) : ℕ :=
  1 + 4 + 4 + 8 + 8 + record.key.length + record.value.length + (match record.governance with
      | some token => 4 + token.length
      | none => 0) + 4

/-- The payload, compressed or not, is short enough for the length field of the frame. -/
def Fits : Prop := rawLen entry.record < 2 ^ 32 ∨ (entry.compress = true ∧
      (env.compressPrependSize (encodeLegacy env entry.record)).length < 2 ^ 32)

theorem length_encodeLegacy (record : MutationRecord) :
    (encodeLegacy env record).length = rawLen record := by
  rw [encodeLegacy, withCrc, rawLen]
  simp only [length_append, length_leBytes, length_encodeLegacyHeader,
    bodyStart, legacyRecordHeaderTailLen]
  cases record.governance with
  | none =>
    simp only [encodeGovernance, length_nil]
    omega
  | some =>
    simp only [encodeGovernance, length_append, length_leBytes]
    omega

theorem fits_iff : entry.Fits env ↔ entry.size env < 2 ^ 32 := by
  have hraw := length_encodeLegacy env entry.record
  rw [Fits, size, payload, fromRaw]
  cases entry.compress with
  | false => simp [plain, hraw]
  | true =>
    simp only [if_true, compressedWhenSmaller, true_and]
    split_ifs
    · simp only
      omega
    · simp only [plain]
      omega

/-- A frame whose payload length fits its header is read back, and no part of it is. -/
theorem frames (hfits : entry.Fits env) :
    (framedReader env).Frames (entry.frame env) entry.record.withoutOrigin where
  whole rest := by
    have hlen := Nat.mod_eq_of_lt ((entry.fits_iff env).mp hfits)
    have htail := length_frameTail env entry
    have hcrc : readU32At (entry.frameTail env ++ rest) (entry.size env) =
        (env.crc32 (encodeFrameHeader (entry.payload env).flags (entry.size env) ++
          (entry.payload env).bytes)).toNat := by
      rw [frameTail, append_assoc, readU32At_append_right _ le_rfl, Nat.sub_self,
        readU32At_append_zero, Nat.mod_eq_of_lt (UInt32.toNat_lt _)]
    have htake : (entry.frameTail env ++ rest).take (entry.size env) =
        (entry.payload env).bytes := by
      rw [frameTail, append_assoc, take_left]
    have hdrop : (entry.frameTail env ++ rest).drop (entry.size env + 4) = rest := by
      rw [← htail, drop_left]
    have hpayload : nextPayload env (entry.frame env ++ rest) =
        .ok (some (encodeLegacy env entry.record, rest)) := by
      rw [frame_eq, append_assoc, nextPayload_frame, hlen,
        if_neg (by rw [length_append, htail]; omega), htake, hcrc, if_pos rfl, hdrop,
        decodePayload_payload]
      rfl
    show nextFramedRecord env (entry.frame env ++ rest) = _
    rw [nextFramedRecord, hpayload]
    simp only
    rw [decodeSingleLegacyRecord_encodeLegacy]
    rfl
  torn part hpart hne := by
    have hlen := Nat.mod_eq_of_lt ((entry.fits_iff env).mp hfits)
    have hshort : part.length < walFrameHeaderLen + (entry.size env + 4) := by
      have hlt := hpart.length_le.lt_of_ne fun heq => hne (hpart.eq_of_length heq)
      rwa [frame_eq, length_append, length_encodeFrameHeader, length_frameTail] at hlt
    have hpayload : nextPayload env part = .ok none := by
      by_cases hheader : part.length < walFrameHeaderLen
      · rw [nextPayload, WalFrameCursor.readHeader, if_pos hheader]
      · have hstart : encodeFrameHeader (entry.payload env).flags (entry.size env) <+: part := by
          refine prefix_of_prefix_length_le ?_ hpart ?_
          · rw [frame_eq]
            exact prefix_append _ _
          · rw [length_encodeFrameHeader]
            omega
        obtain ⟨tail, rfl⟩ := hstart
        rw [length_append, length_encodeFrameHeader] at hshort
        rw [nextPayload_frame, hlen, if_pos (by omega)]
    show nextFramedRecord env part = _
    rw [nextFramedRecord, hpayload]

end LogEntry

section Log

open WalRecordCodec LogEntry
variable (env : WalPrimitives)

/-- What reading a log back should mean. -/
structure TornTailSafe (log : List LogEntry) : Prop where
  whole : decodeRecords env (log.flatMap (LogEntry.frame env)) =
    .ok (log.map fun entry => entry.record.withoutOrigin)
  part : ∀ part, part <+: log.flatMap (LogEntry.frame env) →
    decodeRecords env part = .ok ((framesWithin (LogEntry.frame env) part.length log).map
      fun entry => entry.record.withoutOrigin)

theorem length_frame (entry : LogEntry) : (entry.frame env).length = entry.size env + 13 := by
  rw [frame_eq, length_append, length_encodeFrameHeader, length_frameTail, walFrameHeaderLen]
  omega

theorem decodeRecords_of_magic {bytes : Bytes} (h : walFrameMagic <+: bytes) :
    decodeRecords env bytes = (framedReader env).readAll bytes := by
  rw [decodeRecords, WalRecordFormat.detect, if_pos h]
  rfl

/-- A part that is too short for the magic is taken for an old segment, and has no records. -/
theorem decodeRecords_of_short {bytes : Bytes} (h : bytes.length < 4) :
    decodeRecords env bytes = .ok [] := by
  have hmagic : ¬walFrameMagic <+: bytes := fun hstart => by
    have hlen := hstart.length_le
    simp only [walFrameMagic, length_cons, length_nil] at hlen
    omega
  have hnext : (legacyReader env).next bytes = .ok none := by
    show nextRecord env bytes = _
    cases bytes with
    | nil => rfl
    | cons =>
      rw [length_cons] at h
      rw [LegacyRecordCursor.nextRecord, LegacyRecordCursor.readHeader,
        if_neg (by rw [legacyRecordHeaderTailLen]; omega)]
  rw [decodeRecords, WalRecordFormat.detect, if_neg hmagic]
  exact (legacyReader env).readAll_of_none hnext

theorem magic_prefix_part {log : List LogEntry} {part : Bytes}
    (hpart : part <+: log.flatMap (frame env)) (hlen : 4 ≤ part.length) :
    walFrameMagic <+: part := by
  cases log with
  | nil =>
    rw [flatMap_nil, prefix_nil] at hpart
    subst hpart
    simp at hlen
  | cons entry log =>
    have hmagic : walFrameMagic <+: (entry :: log).flatMap (frame env) := by
      rw [flatMap_cons]
      exact (magic_prefix_frame env entry).trans (prefix_append _ _)
    exact prefix_of_prefix_length_le hmagic hpart hlen

theorem framesWithin_of_short (log : List LogEntry) {size : ℕ} (h : size < 4) :
    framesWithin (frame env) size log = [] := by
  cases log with
  | nil => rfl
  | cons entry =>
    have hlen := length_frame env entry
    rw [framesWithin, if_neg (by omega)]

/-- Every cut of a log whose payloads fit reads as the records written before the cut. -/
theorem tornTailSafe_of_fits {log : List LogEntry} (hlog : ∀ entry ∈ log, entry.Fits env) :
    TornTailSafe env log := by
  have hframes := fun entry hentry => LogEntry.frames env entry (hlog entry hentry)
  have hpart : ∀ part, part <+: log.flatMap (frame env) →
      decodeRecords env part = .ok ((framesWithin (frame env) part.length log).map
        fun entry => entry.record.withoutOrigin) := by
    intro part hpart
    by_cases hlen : part.length < 4
    · rw [decodeRecords_of_short env hlen, framesWithin_of_short env log hlen]
      rfl
    · rw [decodeRecords_of_magic env (magic_prefix_part env hpart (by omega))]
      exact Reader.readAll_part rfl hframes hpart
  refine ⟨?_, hpart⟩
  have hwhole := hpart _ (prefix_refl _)
  rwa [framesWithin_length_flatMap] at hwhole

/-- A payload of `2 ^ 32` bytes or more loses its own record, or yields one too early. -/
theorem not_tornTailSafe_of_not_fits {before after : List LogEntry} {bad : LogEntry}
    (hbefore : ∀ entry ∈ before, entry.Fits env) (hbad : ¬bad.Fits env) :
    ¬TornTailSafe env (before ++ bad :: after) := by
  intro hsafe
  have hlong : 2 ^ 32 ≤ bad.size env := by
    rw [fits_iff] at hbad
    omega
  have htail := bad.length_frameTail env
  -- the part of the bad frame that its header speaks of
  obtain ⟨read, unread, hsplit, hread⟩ : ∃ read unread, bad.frameTail env = read ++ unread ∧
      read.length = bad.size env % 2 ^ 32 + 4 := by
    refine ⟨_, _, (take_append_drop (bad.size env % 2 ^ 32 + 4) (bad.frameTail env)).symm, ?_⟩
    rw [length_take, htail]
    omega
  have hframes := fun entry hentry => LogEntry.frames env entry (hbefore entry hentry)
  set short := encodeFrameHeader (bad.payload env).flags (bad.size env) ++ read with hshort
  have hframe : bad.frame env = short ++ unread := by
    rw [frame_eq, hsplit, hshort, append_assoc]
  have hlog : (before ++ bad :: after).flatMap (frame env) = before.flatMap (frame env) ++
        (short ++ (unread ++ after.flatMap (frame env))) := by
    rw [flatMap_append, flatMap_cons, hframe, append_assoc]
  have hnext := nextFramedRecord_append env (bad.payload env).flags (bad.size env)
    (unread ++ after.flatMap (frame env)) hread.ge
  rw [← append_assoc, ← hshort] at hnext
  have hshortLen : short.length = bad.size env % 2 ^ 32 + 13 := by
    rw [hshort, length_append, length_encodeFrameHeader, hread, walFrameHeaderLen]
    omega
  have hpart : before.flatMap (frame env) ++ short <+:
      (before ++ bad :: after).flatMap (frame env) := by
    rw [hlog, prefix_append_right_inj]
    exact prefix_append _ _
  have hwhole := hsafe.whole
  rw [decodeRecords_of_magic env (magic_prefix_part env (prefix_refl _)
    (by rw [hlog]; simp only [length_append]; omega)), hlog,
    Reader.readAll_flatMap_append hframes] at hwhole
  obtain ⟨items, hitems, hall⟩ := Except.map_eq_ok.mp hwhole
  cases hfirst : nextFramedRecord env short with
  | error =>
    rw [hfirst] at hnext
    rw [(framedReader env).readAll_of_error hnext] at hitems
    cases hitems
  | ok outcome =>
    rw [hfirst] at hnext
    cases outcome with
    | none =>
      rw [(framedReader env).readAll_of_none hnext] at hitems
      cases hitems
      simp at hall
    | some out =>
      -- the part that ends with `short` has one record too many
      obtain ⟨record, rest⟩ := out
      have hcut := hsafe.part _ hpart
      rw [decodeRecords_of_magic env (magic_prefix_part env hpart
        (by simp only [length_append]; omega)),
        Reader.readAll_flatMap_append hframes, length_append, framesWithin_append,
        framesWithin, if_neg (by rw [length_frame]; omega),
        (framedReader env).readAll_of_some hfirst] at hcut
      cases hrest : (framedReader env).readAll rest with
      | error =>
        rw [hrest] at hcut
        cases hcut
      | ok =>
        rw [hrest] at hcut
        simp [Except.map] at hcut

/-- Logs are read back from every cut exactly when all payload lengths fit their frames. -/
theorem tornTailSafe_iff (log : List LogEntry) :
    TornTailSafe env log ↔ ∀ entry ∈ log, entry.Fits env := by
  constructor
  · intro hsafe
    by_contra hbad
    obtain ⟨before, bad, after, rfl, hbefore, hnot⟩ := exists_first_not hbad
    exact not_tornTailSafe_of_not_fits env hbefore hnot hsafe
  · exact tornTailSafe_of_fits env

/-- A plain write of one key. -/
def plainSet (value : Bytes) (hvalue : value.length < 2 ^ 32) : LogEntry where
  record := {
    shardId := 0
    sequence := 0
    timestampMs := 42
    op := .set
    key := [97]
    value
    expireAtMs := none
    governance := none }
  compress := false
  loggable := {
    key_lt := by simp
    value_lt := hvalue
    timestamp_lt := by simp
    deadline_lt := by simp
    governance_lt := by simp
    governance_set := by simp }

/-- An uncompressed payload that does not fit is read as a part of a record. -/
theorem nextFramedRecord_plain (entry : LogEntry) (hplain : entry.compress = false)
    (hlong : 2 ^ 32 ≤ rawLen entry.record) :
    nextFramedRecord env (entry.frame env) = .ok none ∨
      nextFramedRecord env (entry.frame env) = .error "WAL frame payload is truncated" := by
  have hraw : (entry.payload env).bytes = encodeLegacy env entry.record := by
    rw [payload, hplain]
    rfl
  have hflags : (entry.payload env).flags = 0 := by
    rw [payload, hplain]
    rfl
  have hlen := length_encodeLegacy env entry.record
  have hsize : entry.size env = rawLen entry.record := by rw [size, hraw, hlen]
  set cut := (encodeLegacy env entry.record).take (rawLen entry.record % 2 ^ 32) with hcut
  have htake : (entry.frameTail env).take (rawLen entry.record % 2 ^ 32) = cut := by
    rw [frameTail, hraw, take_append_of_le_length (by omega)]
  have hne : cut ≠ encodeLegacy env entry.record := by
    intro heq
    have hlens := congrArg List.length heq
    rw [hcut, length_take, hlen] at hlens
    omega
  have htorn : decodeSingleLegacyRecord env cut = .error "WAL frame payload is truncated" := by
    rw [decodeSingleLegacyRecord,
      nextRecord_torn env entry.loggable (List.take_prefix _ _) hne]
  have hnotail : ¬(entry.frameTail env).length < rawLen entry.record % 2 ^ 32 + 4 := by
    rw [length_frameTail, hsize]
    omega
  have hdecode : decodePayload env 0 cut = .ok cut := by
    rw [decodePayload, if_neg (by simp)]
  rw [nextFramedRecord, frame_eq, nextPayload_frame, hsize, if_neg hnotail, htake, hflags, hdecode]
  split_ifs
  · right
    simp only [Except.map]
    rw [htorn]
  · exact Or.inl rfl

/-- A value of `2 ^ 32 - 1` bytes is representable, but its payload is not: the record of the
complete frame is lost. -/
theorem oversizedEntry_lost :
    let env := trivialPrimitives
    let entry := plainSet (List.replicate (2 ^ 32 - 1) 0) (by rw [length_replicate]; decide)
    decodeRecords env (entry.frame env) ≠ .ok [entry.record.withoutOrigin] := by
  intro env entry hread
  have hlong : 2 ^ 32 ≤ rawLen entry.record := by
    simp only [rawLen, entry, plainSet, length_replicate]
    omega
  rw [decodeRecords_of_magic env (entry.magic_prefix_frame env)] at hread
  rcases nextFramedRecord_plain env entry rfl hlong with hnext | hnext
  · rw [(framedReader env).readAll_of_none hnext] at hread
    cases hread
  · rw [(framedReader env).readAll_of_error hnext] at hread
    cases hread

end Log
end ShardKv
