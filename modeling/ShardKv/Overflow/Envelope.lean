import ShardKv.Foundations.Bytes

/-!
# The envelope of offloaded values

A value leaves the primary in an envelope with its deadline, its length, a checksum and
its governance metadata, compressed when that saves enough. The decoder checks what it
reads against the limits of the configuration before it allocates the payload, so it
returns the bytes it allocated along with its answer.

The checksum and the compressor are libraries. Failing allocations are left out.
-/
namespace ShardKv

open List

/-- The checksum, and a compressor whose output is inverted into a buffer of the right size. -/
structure EnvelopePrimitives where
  crc32 : Bytes → UInt32
  compress : Bytes → Bytes
  decompressInto : Bytes → ℕ → Option Bytes
  decompress_compress : ∀ value, decompressInto (compress value) value.length = some value

inductive KvOverflowCompression where
  | none
  | lz4
  deriving DecidableEq

/-- The settings of the envelope that the validation of the options accepts. -/
structure EnvelopeSettings where
  compression : KvOverflowCompression
  compressionMinValueBytes : ℕ
  compressionMinSavingsPercent : ℕ
  maxValueBytes : ℕ
  compressionMaxExpansionRatio : ℕ
  minValueBytes_pos : 0 < compressionMinValueBytes
  minSavingsPercent_le : compressionMinSavingsPercent ≤ 100
  maxValueBytes_pos : 0 < maxValueBytes
  maxValueBytes_lt : maxValueBytes < 2 ^ 64
  ratio_pos : 0 < compressionMaxExpansionRatio

structure KvOverflowValue where
  value : Bytes
  ttlMs : Option ℕ
  governance : Option Bytes
  deriving DecidableEq

namespace Envelope

def magic (governed compressed : Bool) : Bytes :=
  [83, 67, 75, 86, 79, 86, 48, match governed, compressed with
    | false, false => 49
    | false, true => 50
    | true, false => 51
    | true, true => 52]

def headerLen : ℕ := 8 + 8 + 8 + 4

def rawHeaderLen (governed : Bool) : ℕ := if governed then headerLen + 4 else headerLen

def compressedHeaderLen (governed : Bool) : ℕ := rawHeaderLen governed + 1

def codecLz4 : UInt8 := 1

def usizeMax : ℕ := 2 ^ 64 - 1

def saturatingAdd (a b : ℕ) : ℕ := min (a + b) usizeMax

def saturatingMul (a b : ℕ) : ℕ := min (a * b) usizeMax

section Codec

variable (lib : EnvelopePrimitives) (settings : EnvelopeSettings)
  (found : Header) (bytes : Bytes) (value : Bytes)

def overflowChecksum (governance : Option Bytes) : ℕ :=
  (lib.crc32 (value ++ governance.getD [])).toNat

/-- Whether the compressed form is shorter by the configured percentage of the raw one. -/
def savesEnough (governed : Bool) (valueLen compressedLen governanceLen : ℕ) : Bool :=
  let rawSize := saturatingAdd (saturatingAdd (rawHeaderLen governed) valueLen) governanceLen
  let compressedSize :=
    saturatingAdd (saturatingAdd (compressedHeaderLen governed) compressedLen) governanceLen
  let savings := rawSize - compressedSize
  compressedSize < rawSize &&
    saturatingMul rawSize settings.compressionMinSavingsPercent ≤ saturatingMul savings 100

/-- Whether the value is written in its compressed form. -/
def usesCompressed (governance : Option Bytes) : Bool :=
  settings.compression == .lz4 && settings.compressionMinValueBytes ≤ value.length &&
    savesEnough settings governance.isSome value.length (lib.compress value).length
      (governance.getD []).length

variable (governed compressed : Bool) (expireAtMs payloadLen checksum governanceLen : ℕ)

/-- The fields in front of the payload. -/
def header : Bytes :=
  magic governed compressed ++ (leBytes 8 expireAtMs ++ (leBytes 8 payloadLen ++
    (leBytes 4 checksum ++ if governed then leBytes 4 governanceLen else [])))

def encodeOverflowValueUntil (governance : Option Bytes) (expireAtMs : Option ℕ) : Bytes :=
  let compressed := usesCompressed lib settings value governance
  header governance.isSome compressed (expireAtMs.getD 0) value.length
      (overflowChecksum lib value governance) (governance.getD []).length ++
    ((if compressed then codecLz4 :: lib.compress value else value) ++ governance.getD [])

/-- The fields of an envelope that was found acceptable so far. -/
structure Header where
  governed : Bool
  compressed : Bool
  expireAtMs : ℕ
  payloadLen : ℕ
  checksum : ℕ
  governanceLen : ℕ

def magicOf (found : Bytes) : Option (Bool × Bool) :=
  if found = magic false false then some (false, false)
  else if found = magic false true then some (false, true)
  else if found = magic true false then some (true, false)
  else if found = magic true true then some (true, true)
  else none

def governanceLenOf (governed : Bool) (bytes : Bytes) : ℕ :=
  if governed then leValue (byteSlice bytes 28 4) else 0

/-- The kind of an envelope is known: the lengths are read and held against the maximum. -/
def readLengths (bytes : Bytes) : Except String Header :=
  let payloadLen := leValue (byteSlice bytes 16 8)
  let governanceLen := governanceLenOf governed bytes
  if settings.maxValueBytes < payloadLen then
    .error "key-value overflow payload exceeds configured maximum"
  else if governed ∧ bytes.length < rawHeaderLen true then
    .error "invalid key-value overflow governance envelope"
  else if settings.maxValueBytes < governanceLen then
    .error "key-value overflow governance exceeds configured maximum"
  else .ok { governed, compressed, expireAtMs := leValue (byteSlice bytes 8 8), payloadLen,
             checksum := leValue (byteSlice bytes 24 4), governanceLen }

def readHeader : Except String Header :=
  if bytes.length < headerLen then .error "invalid key-value overflow envelope"
  else match magicOf (bytes.take 8) with
    | none => .error "invalid key-value overflow envelope"
    | some (governed, compressed) => readLengths settings governed compressed bytes

def Header.governance : Option Bytes :=
  if found.governed then some (bytes.drop (bytes.length - found.governanceLen)) else none

/-- The payload of a compressed envelope, and the bytes allocated for it. -/
def openCompressed : Except String Bytes × ℕ :=
  let start := compressedHeaderLen found.governed
  if bytes.length < start + found.governanceLen ∨
      bytes[rawHeaderLen found.governed]? ≠ some codecLz4 then
    (.error "invalid key-value overflow compression codec", 0)
  else
    let storedLen := bytes.length - start - found.governanceLen
    let bound := storedLen * settings.compressionMaxExpansionRatio
    if usizeMax < bound then (.error "invalid key-value overflow expansion ratio", 0)
    else if bound < found.payloadLen then
      (.error "key-value overflow payload exceeds configured expansion ratio", 0)
    else match lib.decompressInto (byteSlice bytes start storedLen) found.payloadLen with
      | none => (.error "invalid key-value overflow compressed payload", found.payloadLen)
      | some decoded =>
        if decoded.length ≠ found.payloadLen ∨
            overflowChecksum lib decoded (found.governance bytes) ≠ found.checksum then
          (.error "invalid key-value overflow payload integrity", found.payloadLen)
        else (.ok decoded, found.payloadLen)

def Header.governanceAfterPayload : Option Bytes :=
  if found.governed then some (bytes.drop (rawHeaderLen found.governed + found.payloadLen)) else none

/-- The payload of an envelope that is not compressed, and the bytes allocated for it. -/
def openRaw : Except String Bytes × ℕ :=
  let start := rawHeaderLen found.governed
  let expectedLen := start + found.payloadLen + found.governanceLen
  if usizeMax < expectedLen then (.error "invalid key-value overflow payload length", 0)
  else if bytes.length ≠ expectedLen then
    (.error "invalid key-value overflow payload integrity", 0)
  else
    let payload := byteSlice bytes start found.payloadLen
    if overflowChecksum lib payload (found.governanceAfterPayload bytes) ≠ found.checksum then
      (.error "invalid key-value overflow payload integrity", 0)
    else (.ok payload, found.payloadLen)

def openPayload : Except String Bytes × ℕ :=
  if found.compressed then openCompressed lib settings found bytes else openRaw lib found bytes

/-- The value with the time it has left, unless that is over. -/
def Header.live (nowMs : ℕ) (payload bytes : Bytes) : Option KvOverflowValue :=
  if found.expireAtMs ≠ 0 ∧ found.expireAtMs ≤ nowMs then none
  else some { value := payload
              ttlMs := if found.expireAtMs ≠ 0 then some (found.expireAtMs - nowMs) else none
              governance := found.governance bytes }

/-- The decoded value and the bytes that were allocated for its payload. -/
def decodeOverflowValue (nowMs : ℕ) (bytes : Bytes) : Except String (Option KvOverflowValue) × ℕ :=
  match readHeader settings bytes with
  | .error message => (.error message, 0)
  | .ok found =>
    match openPayload lib settings found bytes with
    | (.error message, allocated) => (.error message, allocated)
    | (.ok payload, allocated) => (.ok (found.live nowMs payload bytes), allocated)

variable {lib settings}

theorem readHeader_payloadLen {bytes : Bytes} {found : Header}
    (h : readHeader settings bytes = .ok found) : found.payloadLen ≤ settings.maxValueBytes := by
  rw [readHeader] at h
  split_ifs at h
  split at h
  · cases h
  · simp only [readLengths] at h
    split_ifs at h with hlong
    all_goals cases h
    exact Nat.not_lt.mp hlong

theorem openPayload_allocated : (openPayload lib settings found bytes).2 ≤ found.payloadLen := by
  rw [openPayload]
  split_ifs
  · simp only [openCompressed]
    split_ifs
    · exact Nat.zero_le _
    · exact Nat.zero_le _
    · exact Nat.zero_le _
    · split
      · exact le_rfl
      · split_ifs <;> exact le_rfl
  · simp only [openRaw]
    split_ifs
    · exact Nat.zero_le _
    · exact Nat.zero_le _
    · exact Nat.zero_le _
    · exact le_rfl

/-- Whatever the bytes are, the payload is allocated within the maximum. -/
theorem decodeOverflowValue_allocated (nowMs : ℕ) (bytes : Bytes) :
    (decodeOverflowValue lib settings nowMs bytes).2 ≤ settings.maxValueBytes := by
  rw [decodeOverflowValue]
  split
  · exact Nat.zero_le _
  · next found hfound =>
    have hallocated : (openPayload lib settings found bytes).2 ≤ settings.maxValueBytes :=
      (openPayload_allocated found bytes).trans (readHeader_payloadLen hfound)
    split <;> rename_i hopened <;> rwa [hopened] at hallocated

theorem length_header :
    (header governed compressed expireAtMs payloadLen checksum governanceLen).length =
      rawHeaderLen governed := by
  cases governed <;> simp [header, magic, rawHeaderLen, headerLen]

theorem magicOf_magic :
    magicOf (magic governed compressed) = some (governed, compressed) := by
  cases governed <;> cases compressed <;> rfl

/-- A field that was written at a position is read there, cut to its width. -/
theorem leValue_field (before after : Bytes) {start width n : ℕ} (hstart : before.length = start) :
    leValue (byteSlice (before ++ (leBytes width n ++ after)) start width) = n % 256 ^ width := by
  rw [byteSlice_append_right _ hstart.le, hstart, Nat.sub_self,
    byteSlice_append_zero _ (length_leBytes width n), leValue_leBytes]

section Fields

variable {governed compressed : Bool} {body bytes : Bytes}
  {expireAtMs payloadLen checksum governanceLen : ℕ} (hbytes :
    header governed compressed expireAtMs payloadLen checksum governanceLen ++ body = bytes)
include hbytes

theorem expireAtMs_header : leValue (byteSlice bytes 8 8) = expireAtMs % 2 ^ 64 := by
  simp only [← hbytes, header, append_assoc]
  exact leValue_field (magic governed compressed) _ rfl

theorem payloadLen_header : leValue (byteSlice bytes 16 8) = payloadLen % 2 ^ 64 := by
  simp only [← hbytes, header, append_assoc]
  rw [← append_assoc (magic governed compressed)]
  exact leValue_field _ _ rfl

theorem checksum_header : leValue (byteSlice bytes 24 4) = checksum % 2 ^ 32 := by
  simp only [← hbytes, header, append_assoc]
  rw [← append_assoc (magic governed compressed), ← append_assoc (_ ++ _)]
  exact leValue_field _ _ rfl

theorem governanceLenOf_header :
    governanceLenOf governed bytes = if governed then governanceLen % 2 ^ 32 else 0 := by
  cases governed with
  | false => rfl
  | true =>
    simp only [governanceLenOf, ← hbytes, header, append_assoc, if_true]
    rw [← append_assoc (magic true compressed), ← append_assoc (_ ++ _), ← append_assoc (_ ++ _)]
    exact leValue_field _ _ rfl

/-- The header is read as it was written, but for the length of the governance metadata, which is
cut to 32 bits. -/
theorem readHeader_header (hexpire : expireAtMs < 2 ^ 64)
    (hpayload : payloadLen ≤ settings.maxValueBytes) (hchecksum : checksum < 2 ^ 32)
    (hgovernance : governanceLen ≤ settings.maxValueBytes) :
    readHeader settings bytes =
      .ok { governed, compressed, expireAtMs, payloadLen, checksum,
            governanceLen := if governed then governanceLen % 2 ^ 32 else 0 } := by
  have hlen : rawHeaderLen governed ≤ bytes.length := by
    rw [← hbytes, length_append, length_header]
    exact Nat.le_add_right _ _
  have hleast : headerLen ≤ rawHeaderLen governed := by cases governed <;> decide
  have hcut : (if governed = true then governanceLen % 2 ^ 32 else 0) ≤ settings.maxValueBytes := by
    split_ifs
    · exact (Nat.mod_le _ _).trans hgovernance
    · exact Nat.zero_le _
  have hmagic : bytes.take 8 = magic governed compressed := by
    rw [← hbytes, header, append_assoc]
    exact take_left' rfl
  have hfits : payloadLen < 2 ^ 64 := Nat.lt_of_le_of_lt hpayload settings.maxValueBytes_lt
  have hgoverned : ¬(governed = true ∧ bytes.length < rawHeaderLen true) := by
    rintro ⟨rfl, hshort⟩
    omega
  rw [readHeader, if_neg (by omega), hmagic, magicOf_magic]
  simp only [readLengths, governanceLenOf_header hbytes, expireAtMs_header hbytes,
    payloadLen_header hbytes, checksum_header hbytes, Nat.mod_eq_of_lt hexpire,
    Nat.mod_eq_of_lt hfits, Nat.mod_eq_of_lt hchecksum]
  rw [if_neg (Nat.not_lt.mpr hpayload), if_neg hgoverned, if_neg (Nat.not_lt.mpr hcut)]

end Fields

section Written

variable {value : Bytes} {governance : Option Bytes} {expireAtMs : Option ℕ}

/-- The header that is read of the envelope of a value. -/
def writtenHeader (lib : EnvelopePrimitives) (settings : EnvelopeSettings) (value : Bytes)
    (governance : Option Bytes) (expireAtMs : Option ℕ) : Header :=
  { governed := governance.isSome
    compressed := usesCompressed lib settings value governance
    expireAtMs := expireAtMs.getD 0
    payloadLen := value.length
    checksum := overflowChecksum lib value governance
    governanceLen := (governance.getD []).length % 2 ^ 32 }

theorem writtenHeader_compressed :
    (writtenHeader lib settings value governance expireAtMs).compressed =
      usesCompressed lib settings value governance := rfl

variable {bytes : Bytes} {metadata : Bytes}
  (hbytes : encodeOverflowValueUntil lib settings value governance expireAtMs = bytes)
include hbytes

theorem readHeader_encode (hvalue : value.length ≤ settings.maxValueBytes)
    (hgovernance : ∀ metadata ∈ governance, metadata.length ≤ settings.maxValueBytes)
    (hexpire : ∀ deadline ∈ expireAtMs, deadline < 2 ^ 64) :
    readHeader settings bytes =
      .ok (writtenHeader lib settings value governance expireAtMs) := by
  have hdeadline : expireAtMs.getD 0 < 2 ^ 64 := by
    cases expireAtMs with
    | none => decide
    | some deadline => exact hexpire deadline rfl
  have hmetadata : (governance.getD []).length ≤ settings.maxValueBytes := by
    cases governance with
    | none => exact Nat.zero_le _
    | some metadata => exact hgovernance metadata rfl
  have hcut : (if governance.isSome then (governance.getD []).length % 2 ^ 32 else 0) =
      (governance.getD []).length % 2 ^ 32 := by
    cases governance <;> rfl
  rw [writtenHeader, ← hcut]
  exact readHeader_header hbytes hdeadline hvalue (lib.crc32 (value ++ governance.getD [])).toNat_lt
    hmetadata

/-- What is read behind the payload is the last part of the metadata, of the length read. -/
theorem governance_encode (hgoverned : governance = some metadata) :
    (writtenHeader lib settings value governance expireAtMs).governance bytes =
      some (metadata.drop (metadata.length - metadata.length % 2 ^ 32)) := by
  have hle : metadata.length % 2 ^ 32 ≤ metadata.length := Nat.mod_le _ _
  subst hgoverned
  rw [Header.governance, ← hbytes, encodeOverflowValueUntil]
  simp only [writtenHeader, Option.isSome_some, if_true, Option.getD_some]
  rw [← append_assoc, length_append, Nat.add_sub_assoc hle, drop_append,
    drop_eq_nil_of_le (Nat.le_add_right _ _), nil_append, Nat.add_sub_cancel_left]

variable (h : ∀ metadata ∈ governance, metadata.length < 2 ^ 32)
include h

/-- Metadata whose length fits its field is read back. -/
theorem governance_encode_of_lt :
    (writtenHeader lib settings value governance expireAtMs).governance bytes = governance := by
  cases governance with
  | none => rfl
  | some metadata =>
    rw [governance_encode hbytes rfl, Nat.mod_eq_of_lt (h metadata rfl), Nat.sub_self, drop_zero]

omit hbytes in
theorem governanceLen_of_lt :
    (governance.getD []).length % 2 ^ 32 = (governance.getD []).length := by
  cases governance with
  | none => rfl
  | some metadata => exact Nat.mod_eq_of_lt (h metadata rfl)

theorem openRaw_encode (hraw : usesCompressed lib settings value governance = false)
    (hbuffer : bytes.length ≤ usizeMax) :
    openRaw lib (writtenHeader lib settings value governance expireAtMs) bytes =
      (.ok value, value.length) := by
  have hgovernance : (writtenHeader lib settings value governance
      expireAtMs).governanceAfterPayload bytes = governance := by
    cases governance with
    | none => rfl
    | some metadata =>
      simp only [Header.governanceAfterPayload, writtenHeader, Option.isSome_some, if_true,
        ← hbytes, encodeOverflowValueUntil, hraw, Option.getD_some, Bool.false_eq_true, if_false]
      rw [← append_assoc, drop_left' (by rw [length_append, length_header])]
  have hlen : bytes.length =
      rawHeaderLen governance.isSome + value.length + (governance.getD []).length := by
    simp only [← hbytes, encodeOverflowValueUntil, hraw, Bool.false_eq_true, if_false, length_append,
      length_header]
    omega
  have hpayload : byteSlice bytes (rawHeaderLen governance.isSome) value.length = value := by
    simp only [← hbytes, encodeOverflowValueUntil, hraw, Bool.false_eq_true, if_false]
    rw [byteSlice_append_right _ (length_header ..).le, length_header, Nat.sub_self,
      byteSlice_append_zero _ rfl]
  rw [openRaw, hgovernance]
  simp only [writtenHeader, governanceLen_of_lt h, ← hlen, hpayload]
  rw [if_neg (Nat.not_lt.mpr hbuffer), if_neg (not_not.mpr rfl), if_neg (not_not.mpr rfl)]

theorem openCompressed_encode (hcompressed : usesCompressed lib settings value governance = true) :
    openCompressed lib settings (writtenHeader lib settings value governance expireAtMs) bytes =
      let bound := (lib.compress value).length * settings.compressionMaxExpansionRatio
      if usizeMax < bound then (.error "invalid key-value overflow expansion ratio", 0)
      else if bound < value.length then
        (.error "key-value overflow payload exceeds configured expansion ratio", 0)
      else (.ok value, value.length) := by
  have hlen : bytes.length = compressedHeaderLen governance.isSome + (lib.compress value).length +
        (governance.getD []).length := by
    simp only [← hbytes, encodeOverflowValueUntil, hcompressed, if_true, length_append, length_header,
      length_cons, compressedHeaderLen]
    omega
  have hcodec : bytes[rawHeaderLen governance.isSome]? = some codecLz4 := by
    simp only [← hbytes, encodeOverflowValueUntil, hcompressed, if_true]
    rw [List.getElem?_append_right (length_header ..).le, length_header, Nat.sub_self]
    rfl
  have hstored : byteSlice bytes (compressedHeaderLen governance.isSome)
      (lib.compress value).length = lib.compress value := by
    simp only [← hbytes, encodeOverflowValueUntil, hcompressed, if_true]
    rw [byteSlice_append_right _ (by rw [length_header, compressedHeaderLen]; omega), length_header,
      compressedHeaderLen, Nat.add_sub_cancel_left, cons_append, byteSlice, drop_succ_cons,
      drop_zero, take_left]
  rw [openCompressed, governance_encode_of_lt hbytes h]
  simp only [writtenHeader, governanceLen_of_lt h]
  rw [if_neg (by rw [hlen, hcodec]; simp)]
  have hsize : bytes.length - compressedHeaderLen governance.isSome -
      (governance.getD []).length = (lib.compress value).length := by omega
  rw [hsize, hstored, lib.decompress_compress]
  simp only [ne_eq, not_true_eq_false, or_self, if_false]

end Written

/-- Metadata whose length fits its field, and a compressed form that expands within the ratio, by a
bound that fits the machine. -/
def Readable (lib : EnvelopePrimitives) (settings : EnvelopeSettings) (value : Bytes)
    (governance : Option Bytes) : Prop :=
  (∀ metadata ∈ governance, metadata.length < 2 ^ 32) ∧
    (usesCompressed lib settings value governance = true →
      value.length ≤ (lib.compress value).length * settings.compressionMaxExpansionRatio ∧
        (lib.compress value).length * settings.compressionMaxExpansionRatio ≤ usizeMax)

section RoundTrip

variable {value : Bytes} {governance : Option Bytes} {expireAtMs : Option ℕ} {nowMs : ℕ}

theorem live_governance {found : Header} {payload bytes : Bytes} {result : KvOverflowValue}
    (h : found.live nowMs payload bytes = some result) :
    found.governance bytes = result.governance := by
  rw [Header.live] at h
  split at h
  · cases h
  · rw [← Option.some.inj h]

variable {bytes : Bytes}
  (hbytes : encodeOverflowValueUntil lib settings value governance expireAtMs = bytes)
include hbytes

theorem live_encode (h : ∀ metadata ∈ governance, metadata.length < 2 ^ 32)
    (hfuture : ∀ deadline ∈ expireAtMs, nowMs < deadline) :
    (writtenHeader lib settings value governance expireAtMs).live nowMs value bytes =
      some { value, ttlMs := expireAtMs.map (· - nowMs), governance } := by
  rw [Header.live, governance_encode_of_lt hbytes h, writtenHeader]
  dsimp only
  cases expireAtMs with
  | none => rfl
  | some deadline =>
    have hlater := hfuture deadline rfl
    rw [Option.getD_some, if_neg (by omega), if_pos (by omega), Option.map_some]

section

variable (hvalue : value.length ≤ settings.maxValueBytes)
    (hgovernance : ∀ metadata ∈ governance, metadata.length ≤ settings.maxValueBytes)
    (hfuture : ∀ deadline ∈ expireAtMs, nowMs < deadline ∧ deadline < 2 ^ 64)
include hvalue hgovernance hfuture

theorem decode_encode_of_readable
    (hbuffer : bytes.length ≤ usizeMax) (hreadable : Readable lib settings value governance) :
    (decodeOverflowValue lib settings nowMs bytes).1 =
      .ok (some { value, ttlMs := expireAtMs.map (· - nowMs), governance }) := by
  obtain ⟨hmetadata, hexpands⟩ := hreadable
  have hopened : openPayload lib settings
      (writtenHeader lib settings value governance expireAtMs) bytes =
        (.ok value, value.length) := by
    rw [openPayload, writtenHeader_compressed]
    by_cases hcompressed : usesCompressed lib settings value governance = true
    · obtain ⟨hratio, hbound⟩ := hexpands hcompressed
      rw [if_pos hcompressed, openCompressed_encode hbytes hmetadata hcompressed]
      simp only [if_neg (Nat.not_lt.mpr hbound), if_neg (Nat.not_lt.mpr hratio)]
    · rw [if_neg hcompressed,
        openRaw_encode hbytes hmetadata (Bool.eq_false_iff.mpr hcompressed) hbuffer]
  rw [decodeOverflowValue, readHeader_encode hbytes hvalue hgovernance fun d hd => (hfuture d hd).2]
  simp only [hopened]
  rw [live_encode hbytes hmetadata fun d hd => (hfuture d hd).1]

theorem readable_of_decode_encode {ttlMs : Option ℕ}
    (hdecoded : (decodeOverflowValue lib settings nowMs bytes).1 =
      .ok (some { value, ttlMs, governance })) :
    Readable lib settings value governance := by
  rw [decodeOverflowValue, readHeader_encode hbytes hvalue hgovernance fun d hd => (hfuture d hd).2]
    at hdecoded
  simp only at hdecoded
  split at hdecoded
  · cases hdecoded
  · next payload allocated hopened =>
    have hlive := Except.ok.inj hdecoded
    -- The metadata that was read is as long as its field says.
    have hmetadata : ∀ metadata ∈ governance, metadata.length < 2 ^ 32 := by
      rintro metadata ⟨⟩
      have hread := live_governance hlive
      rw [governance_encode hbytes rfl] at hread
      have hlen := congrArg List.length (Option.some.inj hread)
      rw [length_drop] at hlen
      omega
    refine ⟨hmetadata, fun hcompressed => ?_⟩
    rw [openPayload, writtenHeader_compressed, if_pos hcompressed,
      openCompressed_encode hbytes hmetadata hcompressed] at hopened
    simp only at hopened
    split_ifs at hopened with hbound hratio
    · cases congrArg Prod.fst hopened
    · cases congrArg Prod.fst hopened
    · exact ⟨Nat.not_lt.mp hratio, Nat.not_lt.mp hbound⟩

end
end RoundTrip
end Codec

/-- What is decoded of the envelope of a value, and what decoding allocates. A value and its
metadata come back with the time left exactly when they are readable; and whatever is decoded, the
payload is allocated within the maximum. -/
theorem envelope_contract (lib : EnvelopePrimitives) (settings : EnvelopeSettings) :
    (∀ (value : Bytes) (governance : Option Bytes) (expireAtMs : Option ℕ) (nowMs : ℕ),
      value.length ≤ settings.maxValueBytes →
      (∀ metadata ∈ governance, metadata.length ≤ settings.maxValueBytes) →
      (∀ deadline ∈ expireAtMs, nowMs < deadline ∧ deadline < 2 ^ 64) →
      (encodeOverflowValueUntil lib settings value governance expireAtMs).length ≤ usizeMax →
      ((decodeOverflowValue lib settings nowMs
          (encodeOverflowValueUntil lib settings value governance expireAtMs)).1 =
        .ok (some { value, ttlMs := expireAtMs.map (· - nowMs), governance }) ↔
          Readable lib settings value governance)) ∧
      ∀ (nowMs : ℕ) (bytes : Bytes),
        (decodeOverflowValue lib settings nowMs bytes).2 ≤ settings.maxValueBytes := by
  refine ⟨fun value governance expireAtMs nowMs hvalue hgovernance hfuture hbuffer => ?_,
    decodeOverflowValue_allocated⟩
  exact ⟨readable_of_decode_encode rfl hvalue hgovernance hfuture,
    decode_encode_of_readable rfl hvalue hgovernance hfuture hbuffer⟩

def compressRun : Bytes → Bytes
  | [] => [0]
  | byte :: rest =>
    if rest = List.replicate rest.length byte ∧ rest.length + 1 < 2 ^ 64 then
      1 :: byte :: leBytes 8 (rest.length + 1)
    else 0 :: byte :: rest

def decompressRun : Bytes → ℕ → Option Bytes
  | 0 :: value, _ => some value
  | 1 :: byte :: count, _ => some (List.replicate (leValue count) byte)
  | _, _ => none

/-- A compressor that knows one byte repeated, which LZ4 compresses well too. -/
def runs : EnvelopePrimitives where
  crc32 _ := 0
  compress := compressRun
  decompressInto := decompressRun
  decompress_compress value := by
    cases value with
    | nil => rfl
    | cons byte rest =>
      rw [compressRun]
      split_ifs with hrun
      · have hcount : leValue (leBytes 8 (rest.length + 1)) = rest.length + 1 :=
          leValue_leBytes_of_lt hrun.2
        simp only [decompressRun, hcount, List.replicate_succ]
        rw [← hrun.1]
      · rfl

def settingsWithRatio (ratio : ℕ) (h : 0 < ratio) : EnvelopeSettings where
  compression := .lz4
  compressionMinValueBytes := 64
  compressionMinSavingsPercent := 1
  maxValueBytes := 1024
  compressionMaxExpansionRatio := ratio
  minValueBytes_pos := by decide
  minSavingsPercent_le := by decide
  maxValueBytes_pos := by decide
  maxValueBytes_lt := by decide
  ratio_pos := h

theorem envelope_contract_run : (decodeOverflowValue runs (settingsWithRatio 256 (by decide)) 5
        (encodeOverflowValueUntil runs (settingsWithRatio 256 (by decide))
          (List.replicate 256 7) (some [1]) (some 9))).1 =
      .ok (some { value := List.replicate 256 7, ttlMs := some 4, governance := some [1] }) := by
  refine ((envelope_contract runs (settingsWithRatio 256 (by decide))).1 (List.replicate 256 7)
    (some [1]) (some 9) 5 ?_ ?_ ?_ ?_).mpr ⟨?_, fun _ => ?_⟩ <;> decide +kernel

/-- A value that compresses better than the ratio is written compressed, and refused. -/
theorem compressible_refused : (decodeOverflowValue runs (settingsWithRatio 2 (by decide)) 5
        (encodeOverflowValueUntil runs (settingsWithRatio 2 (by decide))
          (List.replicate 256 7) none none)).1 =
      .error "key-value overflow payload exceeds configured expansion ratio" := by
  decide +kernel

end Envelope
end ShardKv
