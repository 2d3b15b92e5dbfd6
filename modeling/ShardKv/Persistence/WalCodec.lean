import ShardKv.Foundations.FrameLog
import ShardKv.Persistence.Recovery

/-!
# The format of log segments

A segment is a sequence of frames. A frame has a magic, a flag byte, the length
of its payload, the payload and a checksum; the payload is one record in the
older unframed format, compressed when that is shorter. Segments that do not
start with the magic are read as plain sequences of unframed records.

A cursor of the source is a buffer and a position in it; here it is the part of
the buffer that has not been read. Lengths are those of a 64-bit machine.
-/
namespace ShardKv

variable {bytes rest : Bytes}

/-- The checksum and the compressor, which are libraries. -/
structure WalPrimitives where
  crc32 : Bytes → UInt32
  compressPrependSize : Bytes → Bytes
  decompressSizePrepended : Bytes → Except String Bytes
  decompress_compress : ∀ raw, decompressSizePrepended (compressPrependSize raw) = .ok raw

/-- A checksum and a compressor that are easy to evaluate. -/
def trivialPrimitives : WalPrimitives where
  crc32 _ := 0
  compressPrependSize raw := raw
  decompressSizePrepended raw := .ok raw
  decompress_compress _ := rfl

namespace WalBytes

def readU32At (bytes : Bytes) (cursor : ℕ) : ℕ := leValue (byteSlice bytes cursor 4)

def readU64At (bytes : Bytes) (cursor : ℕ) : ℕ := leValue (byteSlice bytes cursor 8)

def readI64At (bytes : Bytes) (cursor : ℕ) : ℤ :=
  (leValue (byteSlice bytes cursor 8) : ℤ).bmod (2 ^ 64)

/-- The bytes of a signed 64-bit number, in two's complement. -/
def i64Bytes (n : ℤ) : Bytes := leBytes 8 (n % 2 ^ 64).toNat

end WalBytes

def walFrameMagic : Bytes := [70, 67, 87, 50]

def walFlagCompressed : UInt8 := 0x01

def walFrameHeaderLen : ℕ := 4 + 1 + 4

def walCrcLen : ℕ := 4

def legacyRecordHeaderTailLen : ℕ := 4 + 4 + 8 + 8

open WalBytes

section Write

variable (env : WalPrimitives)

structure EncodedFramePayload where
  flags : UInt8
  bytes : Bytes

namespace EncodedFramePayload

def plain (bytes : Bytes) : EncodedFramePayload := { flags := 0, bytes }

def compressedWhenSmaller (raw : Bytes) : EncodedFramePayload :=
  let compressed := env.compressPrependSize raw
  if compressed.length < raw.length then { flags := walFlagCompressed, bytes := compressed }
  else plain raw

def fromRaw (raw : Bytes) (compress : Bool) : EncodedFramePayload :=
  if compress then compressedWhenSmaller env raw else plain raw

end EncodedFramePayload

namespace WalRecordCodec

variable (record : MutationRecord)

def encodeOp : UInt8 :=
  match record.op, record.governance.isSome with
  | .set, true => 4
  | .set, false => 1
  | .del, _ => 2
  | .expire, _ => 3

/-- The bytes and their checksum. -/
def withCrc (bytes : Bytes) : Bytes := bytes ++ leBytes 4 (env.crc32 bytes).toNat

/-- The deadline as the signed number that is stored for it. -/
def expireRaw (expireAtMs : Option ℕ) : ℤ :=
  match expireAtMs with
  | none => -1
  | some value => (value : ℤ).bmod (2 ^ 64)

def encodeLegacyHeader : Bytes :=
  [encodeOp record] ++ leBytes 4 record.key.length ++ leBytes 4 record.value.length ++
    leBytes 8 record.timestampMs ++ i64Bytes (expireRaw record.expireAtMs)

def encodeGovernance (governance : Option Bytes) : Bytes :=
  match governance with
  | some governance => leBytes 4 governance.length ++ governance
  | none => []

def encodeLegacy : Bytes :=
  withCrc env (encodeLegacyHeader record ++ (record.key ++ (record.value ++
    encodeGovernance record.governance)))

/-- The frame header; the length is cut to 32 bits. -/
def encodeFrameHeader (flags : UInt8) (payloadLen : ℕ) : Bytes :=
  walFrameMagic ++ ([flags] ++ leBytes 4 payloadLen)

def encodeFrame (compress : Bool) : Bytes :=
  let payload := EncodedFramePayload.fromRaw env (encodeLegacy env record) compress
  withCrc env (encodeFrameHeader payload.flags payload.bytes.length ++ payload.bytes)

end WalRecordCodec
end Write

structure LegacyRecordHeader where
  opByte : UInt8
  keyLen : ℕ
  valueLen : ℕ
  timestampMs : ℕ
  expireRaw : ℤ

namespace LegacyRecordHeader

variable (header : LegacyRecordHeader)

def hasGovernance : Bool := header.opByte == 4

def expireAtMs : Option ℕ :=
  if header.expireRaw < 0 then none else some header.expireRaw.toNat

/-- The size of the length field of the governance token, when there is one. -/
def governanceSizeLen : ℕ := header.hasGovernance.toNat * 4

/-- The position after the fixed part of a record. -/
def bodyStart : ℕ := 1 + legacyRecordHeaderTailLen

end LegacyRecordHeader

def WalRecordCodec.decodeOp (value : UInt8) : Except String MutationOp :=
  if value = 1 ∨ value = 4 then .ok .set
  else if value = 2 then .ok .del
  else if value = 3 then .ok .expire
  else .error s!"unsupported WAL op code: {value}"

namespace LegacyRecordCursor

variable (env : WalPrimitives) (bytes : Bytes) (header : LegacyRecordHeader)

def readHeader : Option LegacyRecordHeader :=
  match bytes with
  | [] => none
  | opByte :: tail =>
    if legacyRecordHeaderTailLen ≤ tail.length then
      some {
        opByte
        keyLen := readU32At bytes 1
        valueLen := readU32At bytes (1 + 4)
        timestampMs := readU64At bytes (1 + 4 + 4)
        expireRaw := readI64At bytes (1 + 4 + 4 + 8) }
    else none

def buildRecord
    (keyStart valueStart governanceStart governanceLen : ℕ) : Except String MutationRecord := do
  let op ← WalRecordCodec.decodeOp header.opByte
  return {
    shardId := 0
    sequence := 0
    timestampMs := header.timestampMs
    op
    key := byteSlice bytes keyStart header.keyLen
    value := byteSlice bytes valueStart header.valueLen
    expireAtMs := header.expireAtMs
    governance := if header.hasGovernance then some (byteSlice bytes governanceStart governanceLen)
      else none }

/-- The record and what follows it; a wrong checksum ends the log. -/
def readCompleteBody (governanceLen : ℕ) :
    Except String (Option (MutationRecord × Bytes)) :=
  let keyStart := LegacyRecordHeader.bodyStart
  let valueStart := keyStart + header.keyLen
  let valueEnd := valueStart + header.valueLen
  let governanceStart := valueEnd + header.governanceSizeLen
  let governanceEnd := governanceStart + governanceLen
  if readU32At bytes governanceEnd = (env.crc32 (bytes.take governanceEnd)).toNat then
    (buildRecord bytes header keyStart valueStart governanceStart governanceLen).map fun record =>
      some (record, bytes.drop (governanceEnd + walCrcLen))
  else .ok none

def minimumBodyLen : ℕ :=
  header.keyLen + header.valueLen + header.governanceSizeLen + walCrcLen

def readGovernanceLen : ℕ :=
  if header.hasGovernance then
    readU32At bytes (LegacyRecordHeader.bodyStart + header.keyLen + header.valueLen)
  else 0

def readBody :
    Except String (Option (MutationRecord × Bytes)) :=
  if bytes.length - LegacyRecordHeader.bodyStart < minimumBodyLen header then .ok none
  else
    let governanceLen := readGovernanceLen bytes header
    if bytes.length - LegacyRecordHeader.bodyStart < minimumBodyLen header + governanceLen then
      .ok none
    else readCompleteBody env bytes header governanceLen

def nextRecord : Except String (Option (MutationRecord × Bytes)) :=
  match readHeader bytes with
  | some header => readBody env bytes header
  | none => .ok none

end LegacyRecordCursor

structure WalFrameHeader where
  flags : UInt8
  payloadLen : ℕ

namespace WalFrameCursor

variable (env : WalPrimitives) (bytes : Bytes)

def readHeader : Option WalFrameHeader :=
  if bytes.length < walFrameHeaderLen then none
  else if byteSlice bytes 0 walFrameMagic.length = walFrameMagic then
    some { flags := bytes.getD 4 0, payloadLen := readU32At bytes (4 + 1) }
  else none

def decodePayload (flags : UInt8) (payload : Bytes) : Except String Bytes :=
  if flags &&& walFlagCompressed ≠ 0 then
    (env.decompressSizePrepended payload).mapError fun error =>
      s!"invalid compressed WAL frame: {error}"
  else .ok payload

def readCompletePayload (header : WalFrameHeader) :
    Except String (Option (Bytes × Bytes)) :=
  let payloadStart := walFrameHeaderLen
  let payloadEnd := payloadStart + header.payloadLen
  let payload := byteSlice bytes payloadStart header.payloadLen
  if readU32At bytes payloadEnd = (env.crc32 (bytes.take payloadEnd)).toNat then
    (decodePayload env header.flags payload).map fun raw =>
      some (raw, bytes.drop (payloadEnd + walCrcLen))
  else .ok none

def readPayload (header : WalFrameHeader) :
    Except String (Option (Bytes × Bytes)) :=
  if bytes.length - walFrameHeaderLen < header.payloadLen + walCrcLen then .ok none
  else readCompletePayload env bytes header

def nextPayload : Except String (Option (Bytes × Bytes)) :=
  match readHeader bytes with
  | some header => readPayload env bytes header
  | none => .ok none

end WalFrameCursor

namespace WalRecordCodec

variable (env : WalPrimitives)

def decodeSingleLegacyRecord (bytes : Bytes) : Except String MutationRecord :=
  match LegacyRecordCursor.nextRecord env bytes with
  | .error error => .error error
  | .ok (some (record, rest)) =>
    if rest = [] then .ok record else .error "WAL frame payload contains trailing bytes"
  | .ok none => .error "WAL frame payload is truncated"

/-- One turn of the loop over frames. -/
def nextFramedRecord (bytes : Bytes) : Except String (Option (MutationRecord × Bytes)) :=
  match WalFrameCursor.nextPayload env bytes with
  | .error error => .error error
  | .ok none => .ok none
  | .ok (some (raw, rest)) => (decodeSingleLegacyRecord env raw).map fun record =>
      some (record, rest)

end WalRecordCodec

variable (env : WalPrimitives)

theorem LegacyRecordCursor.readCompleteBody_shrinks
    {header : LegacyRecordHeader} {governanceLen : ℕ} {record : MutationRecord}
    (h : readCompleteBody env bytes header governanceLen = .ok (some (record, rest)))
    (hbytes : 0 < bytes.length) : rest.length < bytes.length := by
  simp only [readCompleteBody] at h
  split at h
  · obtain ⟨built, _, hbuilt⟩ := Except.map_eq_ok.mp h
    cases hbuilt
    simp only [List.length_drop, walCrcLen]
    omega
  · cases h

theorem LegacyRecordCursor.nextRecord_shrinks {record : MutationRecord}
    (h : nextRecord env bytes = .ok (some (record, rest))) : rest.length < bytes.length := by
  cases bytes with
  | nil => cases h
  | cons opByte tail =>
    simp only [nextRecord] at h
    split at h
    · simp only [readBody] at h
      split at h
      · cases h
      · split at h
        · cases h
        · exact readCompleteBody_shrinks env h (Nat.succ_pos _)
    · cases h

theorem WalFrameCursor.nextPayload_shrinks {raw : Bytes}
    (h : nextPayload env bytes = .ok (some (raw, rest))) : rest.length < bytes.length := by
  simp only [nextPayload, readPayload, readCompletePayload] at h
  split at h
  · split at h
    · cases h
    · rename_i hlen
      split at h
      · obtain ⟨decoded, _, hdecoded⟩ := Except.map_eq_ok.mp h
        cases hdecoded
        simp only [walCrcLen, walFrameHeaderLen] at hlen
        simp only [List.length_drop, walCrcLen]
        omega
      · cases h
  · cases h

namespace WalRecordCodec

variable (env : WalPrimitives)

theorem nextFramedRecord_shrinks {record : MutationRecord}
    (h : nextFramedRecord env bytes = .ok (some (record, rest))) : rest.length < bytes.length := by
  unfold nextFramedRecord at h
  split at h
  · cases h
  · cases h
  · rename_i raw after hpayload
    obtain ⟨decoded, _, hdecoded⟩ := Except.map_eq_ok.mp h
    cases hdecoded
    exact WalFrameCursor.nextPayload_shrinks env hpayload

def framedReader : Reader UInt8 String MutationRecord where
  next := nextFramedRecord env
  shrinks := nextFramedRecord_shrinks env

def legacyReader : Reader UInt8 String MutationRecord where
  next := LegacyRecordCursor.nextRecord env
  shrinks := LegacyRecordCursor.nextRecord_shrinks env

def decodeFramedRecords (bytes : Bytes) : Segment := (framedReader env).readAll bytes

def decodeLegacyRecords (bytes : Bytes) : Segment := (legacyReader env).readAll bytes

inductive WalRecordFormat
  | framed
  | legacy
  deriving DecidableEq

def WalRecordFormat.detect (bytes : Bytes) : WalRecordFormat :=
  if walFrameMagic <+: bytes then .framed else .legacy

def decodeRecords (bytes : Bytes) : Segment :=
  match WalRecordFormat.detect bytes with
  | .framed => decodeFramedRecords env bytes
  | .legacy => decodeLegacyRecords env bytes

end WalRecordCodec
end ShardKv
