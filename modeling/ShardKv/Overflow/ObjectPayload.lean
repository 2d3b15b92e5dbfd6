import ShardKv.Foundations.FrameLog
import ShardKv.Overflow.Envelope
import ShardKv.Storage.FlatMap

/-!
# Payloads of offloaded objects

An object is stored with a header, its body, which may be compressed, and a tag over
the object key, the header and the body. The decoder checks the tag before anything else,
and what it then reads against the reference under which the object was stored.

The hash, the checksum and the compressors are libraries. A tag of 32 bytes cannot differ
for all inputs, so that it is taken to differ only for the inputs that are in play: those
of the payloads that were encoded and of the one that is presented. Failing allocations are
left out.
-/
namespace ShardKv

open List

inductive ObjectPayloadError
  | integrity (message : String)
  | persistence (message : String)
  deriving DecidableEq

/-- The libraries behind the codec. A compressed value is inverted into a buffer of the right size,
and one of less than 2^32 bytes does not grow beyond a machine word. -/
structure PayloadPrimitives where
  crc32 : Bytes → UInt32
  sha256 : Bytes → Bytes
  length_sha256 : ∀ bytes, (sha256 bytes).length = 32
  lz4Compress : Bytes → Bytes
  lz4DecompressInto : Bytes → ℕ → Except String Bytes
  lz4_inverse : ∀ raw, lz4DecompressInto (lz4Compress raw) raw.length = .ok raw
  lz4_size_lt : ∀ raw, raw.length < 2 ^ 32 → (lz4Compress raw).length + 4 < 2 ^ 64
  zstdCompress : Bytes → ℤ → Except String Bytes
  zstdDecompress : Bytes → ℕ → Except String Bytes
  zstd_inverse : ∀ raw level body, zstdCompress raw level = .ok body →
    zstdDecompress body raw.length = .ok raw
  zstd_size_lt : ∀ raw level body, raw.length < 2 ^ 32 → zstdCompress raw level = .ok body →
    body.length < 2 ^ 64

/-- An `ObjectValueRef` with its object key as the bytes that the tag is computed from. -/
structure PayloadRef where
  objectKey : Bytes
  len : ℕ
  storedLen : ℕ
  compression : ObjectOverflowCompression
  checksum : ℕ
  deriving DecidableEq

namespace ObjectPayload

def magic : Bytes := [83, 67, 79, 86, 70, 50, 0, 0]

def headerLen : ℕ := 8 + 1 + 8 + 8 + 4

def tagLen : ℕ := 32

def compressionByte : ObjectOverflowCompression → UInt8
  | .none => 0
  | .lz4 => 1
  | .zstd => 2

def compressionFromByte (value : UInt8) : Except ObjectPayloadError ObjectOverflowCompression :=
  if value = 0 then .ok .none
  else if value = 1 then .ok .lz4
  else if value = 2 then .ok .zstd
  else .error (.integrity s!"unsupported object overflow compression: {value}")

/-- A block of one byte, with the key on top of its beginning. -/
def padded (fill : UInt8) (key : Bytes) : Bytes :=
  (List.replicate 64 fill).mapIdx fun index byte => byte ^^^ key[index]?.getD 0

section Codec

variable (lib : PayloadPrimitives)
  {objectKey key encoded value raw body : Bytes} {object : PayloadRef}
  {compression : ObjectOverflowCompression} {zstdLevel : ℤ}

def mac (key input : Bytes) : Bytes :=
  lib.sha256 (padded 0x5c key ++ lib.sha256 (padded 0x36 key ++ input))

/-- What the tag of a payload is computed from besides the key. -/
def macInput (context payload : Bytes) : Bytes := leBytes 8 context.length ++ (context ++ payload)

def hmacSha256 (key context payload : Bytes) : Bytes := mac lib key (macInput context payload)

def constantTimeEqual (left right : Bytes) : Bool :=
  if left.length ≠ right.length then false
  else (left.zip right).foldl (fun difference pair => difference ||| (pair.1 ^^^ pair.2)) 0 == 0

def compressBody (raw : Bytes) (compression : ObjectOverflowCompression) (zstdLevel : ℤ) :
    Except ObjectPayloadError Bytes :=
  match compression with
  | .none => .ok raw
  | .lz4 => .ok (leBytes 4 raw.length ++ lib.lz4Compress raw)
  | .zstd => (lib.zstdCompress raw zstdLevel).mapError fun error =>
      .persistence s!"zstd encode: {error}"

def header (compression : ObjectOverflowCompression) (rawLen bodyLen checksum : ℕ) : Bytes :=
  magic ++ (compressionByte compression :: (leBytes 8 rawLen ++ (leBytes 8 bodyLen ++
    leBytes 4 checksum)))

/-- A payload with its tag at the end. -/
def sealed (key objectKey payload : Bytes) : Bytes :=
  payload ++ hmacSha256 lib key objectKey payload

def encode (raw : Bytes) (compression : ObjectOverflowCompression) (zstdLevel : ℤ)
    (objectKey authenticationKey : Bytes) : Except ObjectPayloadError Bytes := do
  let body ← compressBody lib raw compression zstdLevel
  return sealed lib authenticationKey objectKey
    (header compression raw.length body.length (lib.crc32 raw).toNat ++ body)

/-- The reference that `put_encoded` returns for what it stores. -/
def reference (raw : Bytes) (compression : ObjectOverflowCompression) (objectKey encoded : Bytes) :
    PayloadRef where
  objectKey := objectKey
  len := raw.length
  storedLen := encoded.length
  compression := compression
  checksum := (lib.crc32 raw).toNat

/-- A field of `len` bytes at the cursor, and the cursor behind it. -/
def readExact (raw : Bytes) (cursor len : ℕ) (field : String) :
    Except ObjectPayloadError (Bytes × ℕ) :=
  if raw.length - cursor < len then .error (.persistence s!"object overflow {field} is truncated")
  else .ok (byteSlice raw cursor len, cursor + len)

def readNumber (raw : Bytes) (cursor len : ℕ) (field : String) :
    Except ObjectPayloadError (ℕ × ℕ) := do
  let (bytes, cursor) ← readExact raw cursor len field
  return (leValue bytes, cursor)

def decompressLz4 (body : Bytes) (rawLen : ℕ) : Except ObjectPayloadError Bytes :=
  if body.length < 4 then .error (.integrity "object overflow lz4 size prefix is truncated")
  else if leValue (body.take 4) ≠ rawLen then
    .error (.integrity "object overflow lz4 length mismatch")
  else
    match lib.lz4DecompressInto (body.drop 4) rawLen with
    | .error error => .error (.integrity s!"lz4 decode: {error}")
    | .ok output =>
      if output.length ≠ rawLen then
        .error (.integrity "object overflow lz4 decoded length mismatch")
      else .ok output

def decompressBody (compression : ObjectOverflowCompression) (body : Bytes) (rawLen : ℕ) :
    Except ObjectPayloadError Bytes :=
  match compression with
  | .none => .ok body
  | .lz4 => decompressLz4 lib body rawLen
  | .zstd => (lib.zstdDecompress body rawLen).mapError fun error =>
      .integrity s!"zstd decode: {error}"

/-- What is done with the fields of an authenticated payload. -/
def openBody (object : PayloadRef) (compression : ObjectOverflowCompression)
    (rawLen storedBodyLen checksum : ℕ) (body : Bytes) : Except ObjectPayloadError Bytes :=
  if body.length ≠ storedBodyLen then .error (.integrity "object overflow payload length mismatch")
  else if rawLen ≠ object.len ∨ checksum ≠ object.checksum ∨ compression ≠ object.compression then
    .error (.integrity "object overflow reference metadata mismatch")
  else do
    let decoded ← decompressBody lib compression body rawLen
    if decoded.length ≠ rawLen ∨ (lib.crc32 decoded).toNat ≠ checksum then
      .error (.integrity "object overflow checksum mismatch")
    else .ok decoded

/-- The bytes in front of the tag, once the tag was found right. -/
def openPayload (payload encoded : Bytes) (object : PayloadRef) : Except ObjectPayloadError Bytes :=
  if encoded.take magic.length ≠ magic then
    .error (.integrity "object overflow payload magic mismatch")
  else do
    let compression ← compressionFromByte (encoded.getD magic.length 0)
    let (rawLen, cursor) ← readNumber encoded (magic.length + 1) 8 "raw length"
    let (storedBodyLen, cursor) ← readNumber encoded cursor 8 "stored length"
    let (checksum, cursor) ← readNumber encoded cursor 4 "checksum"
    openBody lib object compression rawLen storedBodyLen checksum (payload.drop cursor)

def decode (encoded : Bytes) (object : PayloadRef) (objectKey authenticationKey : Bytes) :
    Except ObjectPayloadError Bytes :=
  if encoded.length < headerLen + tagLen then
    .error (.integrity "object overflow payload header is truncated")
  else
    let payloadLen := encoded.length - tagLen
    let payload := encoded.take payloadLen
    if !constantTimeEqual (encoded.drop payloadLen)
        (hmacSha256 lib authenticationKey objectKey payload) then
      .error (.integrity "object overflow payload authentication failed")
    else openPayload lib payload encoded object

/-- What `get_decoded` makes of the bytes it has fetched. -/
def getDecoded (encoded : Bytes) (object : PayloadRef) (authenticationKey : Bytes) :
    Except ObjectPayloadError Bytes :=
  if encoded.length ≠ object.storedLen then
    .error (.integrity "object overflow stored length mismatch")
  else decode lib encoded object object.objectKey authenticationKey

theorem length_mac (key input : Bytes) : (mac lib key input).length = tagLen := lib.length_sha256 _

theorem length_sealed (key objectKey payload : Bytes) :
    (sealed lib key objectKey payload).length = payload.length + tagLen := by
  rw [sealed, length_append, hmacSha256, length_mac]

/-- The length in front of the context says where the context ends. -/
theorem macInput_inj {context context' payload payload' : Bytes} (hlt : context.length < 2 ^ 64)
    (hlt' : context'.length < 2 ^ 64) (h : macInput context payload = macInput context' payload') :
    context = context' ∧ payload = payload' := by
  obtain ⟨hlength, hrest⟩ := append_inj h (by rw [length_leBytes, length_leBytes])
  have hsame : context.length = context'.length := by
    rw [← @leValue_leBytes_of_lt _ 8 hlt, hlength, leValue_leBytes_of_lt hlt']
  exact append_inj hrest hsame

theorem foldl_difference_eq_zero {pairs : List (UInt8 × UInt8)} {difference : UInt8} :
    pairs.foldl (fun difference pair => difference ||| (pair.1 ^^^ pair.2)) difference = 0 ↔
      difference = 0 ∧ ∀ pair ∈ pairs, pair.1 = pair.2 := by
  induction pairs generalizing difference with
  | nil => simp
  | cons pair pairs ih =>
    rw [foldl_cons, ih, UInt8.or_eq_zero_iff, UInt8.xor_eq_zero_iff, forall_mem_cons, and_assoc]

theorem forall_mem_zip_eq_iff {left right : Bytes} (h : left.length = right.length) :
    (∀ pair ∈ left.zip right, pair.1 = pair.2) ↔ left = right := by
  induction left generalizing right with
  | nil => simp [eq_nil_of_length_eq_zero h.symm]
  | cons byte left ih =>
    cases right with
    | nil => cases h
    | cons =>
      rw [zip_cons_cons, forall_mem_cons, ih (Nat.succ.inj h), List.cons.injEq]

theorem constantTimeEqual_iff {left right : Bytes} :
    constantTimeEqual left right = true ↔ left = right := by
  rw [constantTimeEqual]
  split_ifs with hlength
  · simp only [false_iff]
    rintro rfl
    exact hlength rfl
  · rw [beq_iff_eq, foldl_difference_eq_zero, forall_mem_zip_eq_iff (not_not.mp hlength)]
    exact and_iff_right rfl

/-- The bytes in front of the tag. -/
def payloadOf (encoded : Bytes) : Bytes := encoded.take (encoded.length - tagLen)

def tagOf (encoded : Bytes) : Bytes := encoded.drop (encoded.length - tagLen)

theorem payloadOf_sealed (key objectKey payload : Bytes) :
    payloadOf (sealed lib key objectKey payload) = payload := by
  rw [payloadOf, length_sealed, Nat.add_sub_cancel, sealed, take_left]

theorem tagOf_sealed (key objectKey payload : Bytes) :
    tagOf (sealed lib key objectKey payload) = hmacSha256 lib key objectKey payload := by
  rw [tagOf, length_sealed, Nat.add_sub_cancel, sealed, drop_left]

/-- The decoder goes on exactly when the string is a payload under its own tag. -/
theorem decode_of_sealed {payload : Bytes} (hlength : headerLen ≤ payload.length) :
    decode lib (sealed lib key objectKey payload) object objectKey key =
      openPayload lib payload (sealed lib key objectKey payload) object := by
  have hlen := length_sealed lib key objectKey payload
  have hpayload := payloadOf_sealed lib key objectKey payload
  have htag := tagOf_sealed lib key objectKey payload
  rw [payloadOf] at hpayload
  rw [tagOf] at htag
  rw [decode, if_neg (by omega)]
  simp only [hpayload, htag, constantTimeEqual_iff.mpr rfl, Bool.not_true, Bool.false_eq_true,
    if_false]

/-- Whatever is accepted is a payload under its own tag. -/
theorem sealed_of_decode (h : decode lib encoded object objectKey key = .ok value) :
    ∃ payload, headerLen ≤ payload.length ∧ encoded = sealed lib key objectKey payload := by
  rw [decode] at h
  split_ifs at h with hshort
  dsimp only at h
  split_ifs at h with htag
  rw [Bool.not_eq_true', Bool.not_eq_false, constantTimeEqual_iff] at htag
  refine ⟨encoded.take (encoded.length - tagLen), ?_, ?_⟩
  · rw [length_take]
    omega
  · rw [sealed, ← htag, take_append_drop]

theorem readNumber_field (before after : Bytes) {cursor len n : ℕ} (field : String)
    (hraw : raw = before ++ (leBytes len n ++ after)) (hcursor : before.length = cursor)
    (hlt : n < 256 ^ len) : readNumber raw cursor len field = .ok (n, cursor + len) := by
  have hlong : ¬raw.length - cursor < len := by
    rw [hraw, length_append, length_append, length_leBytes]
    omega
  have hvalue : leValue (byteSlice raw cursor len) = n := by
    rw [hraw, Envelope.leValue_field before after hcursor, Nat.mod_eq_of_lt hlt]
  rw [readNumber, readExact, if_neg hlong]
  exact congrArg (fun value => Except.ok (value, cursor + len)) hvalue

variable (compression) in
theorem length_header (rawLen bodyLen checksum : ℕ) :
    (header compression rawLen bodyLen checksum).length = headerLen := by
  simp [header, magic, headerLen]

variable (compression) in
theorem compressionFromByte_compressionByte :
    compressionFromByte (compressionByte compression) = .ok compression := by
  cases compression <;> rfl

variable {rawLen bodyLen checksum : ℕ}

/-- The fields of the header are read as they were written. -/
theorem openPayload_header (tag : Bytes) (object : PayloadRef)
    (hraw : rawLen < 2 ^ 64) (hbody : bodyLen < 2 ^ 64) (hchecksum : checksum < 2 ^ 32) :
    openPayload lib (header compression rawLen bodyLen checksum ++ body)
        (header compression rawLen bodyLen checksum ++ body ++ tag) object =
      openBody lib object compression rawLen bodyLen checksum body := by
  set encoded := header compression rawLen bodyLen checksum ++ body ++ tag with hencoded
  have hmagic : encoded.take magic.length = magic := by
    rw [hencoded, header, append_assoc, append_assoc]
    exact take_left' rfl
  have hbyte : encoded.getD magic.length 0 = compressionByte compression := rfl
  have hrawLen : readNumber encoded (magic.length + 1) 8 "raw length" = .ok (rawLen, 17) :=
    readNumber_field (magic ++ [compressionByte compression])
      (leBytes 8 bodyLen ++ (leBytes 4 checksum ++ (body ++ tag))) "raw length"
      (by simp [hencoded, header]) rfl hraw
  have hbodyLen : readNumber encoded 17 8 "stored length" = .ok (bodyLen, 25) :=
    readNumber_field (magic ++ (compressionByte compression :: leBytes 8 rawLen))
      (leBytes 4 checksum ++ (body ++ tag)) "stored length"
      (by simp [hencoded, header]) rfl hbody
  have hsum : readNumber encoded 25 4 "checksum" = .ok (checksum, 29) := readNumber_field
      (magic ++ (compressionByte compression :: (leBytes 8 rawLen ++ leBytes 8 bodyLen)))
      (body ++ tag) "checksum" (by simp [hencoded, header]) rfl hchecksum
  have hdrop : (header compression rawLen bodyLen checksum ++ body).drop 29 = body :=
    drop_left' (length_header _ _ _ _)
  rw [openPayload, if_neg (not_not.mpr hmagic), hbyte, compressionFromByte_compressionByte, hrawLen]
  simp only [bind, Except.bind]
  rw [hbodyLen]
  simp only
  rw [hsum]
  simp only
  rw [hdrop]

theorem zstdCompress_of_compressBody (h : compressBody lib raw .zstd zstdLevel = .ok body) :
    lib.zstdCompress raw zstdLevel = .ok body := by
  rw [compressBody] at h
  cases hbody : lib.zstdCompress raw zstdLevel with
  | error =>
    rw [hbody] at h
    cases h
  | ok =>
    rw [hbody] at h
    cases h
    rfl

section

variable (hraw : raw.length < 2 ^ 32) (h : compressBody lib raw compression zstdLevel = .ok body)
include hraw h

theorem length_compressBody : body.length < 2 ^ 64 := by
  cases compression with
  | none =>
    cases h
    omega
  | lz4 =>
    cases h
    have hlt := lib.lz4_size_lt raw hraw
    rw [length_append, length_leBytes]
    omega
  | zstd =>
    exact lib.zstd_size_lt raw zstdLevel body hraw (zstdCompress_of_compressBody lib h)

theorem decompressBody_compressBody : decompressBody lib compression body raw.length = .ok raw := by
  cases compression with
  | none =>
    cases h
    rfl
  | lz4 =>
    cases h
    have hsize : leValue ((leBytes 4 raw.length ++ lib.lz4Compress raw).take 4) = raw.length := by
      rw [take_left' (length_leBytes _ _), leValue_leBytes_of_lt hraw]
    have hrest : (leBytes 4 raw.length ++ lib.lz4Compress raw).drop 4 = lib.lz4Compress raw :=
      drop_left' (length_leBytes _ _)
    rw [decompressBody, decompressLz4, if_neg (by simp), if_neg (not_not.mpr hsize), hrest,
      lib.lz4_inverse]
    exact if_neg (not_not.mpr rfl)
  | zstd =>
    rw [decompressBody, lib.zstd_inverse raw zstdLevel body (zstdCompress_of_compressBody lib h)]
    rfl

end

/-- An accepted body matches the reference. -/
theorem openBody_eq_ok :
    openBody lib object compression rawLen bodyLen checksum body = .ok value ↔
      body.length = bodyLen ∧ (rawLen = object.len ∧ checksum = object.checksum ∧
        compression = object.compression) ∧ decompressBody lib compression body rawLen = .ok value ∧
            value.length = rawLen ∧ (lib.crc32 value).toNat = checksum := by
  rw [openBody]
  split_ifs with hlength hmatch
  · simp [hlength]
  · simp only [false_iff]
    rintro ⟨-, ⟨hlen, hsum, hcompression⟩, -⟩
    rcases hmatch with hne | hne | hne
    exacts [hne hlen, hne hsum, hne hcompression]
  · push Not at hlength hmatch
    refine Except.bind_eq_ok.trans ?_
    constructor
    · rintro ⟨decoded, hdecoded, h⟩
      split_ifs at h with hwrong
      cases h
      push Not at hwrong
      exact ⟨hlength, hmatch, hdecoded, hwrong⟩
    · rintro ⟨-, -, hdecoded, hright⟩
      refine ⟨value, hdecoded, if_neg ?_⟩
      push Not
      exact hright

theorem encode_eq_ok (h : encode lib raw compression zstdLevel objectKey key = .ok encoded) :
    ∃ body, compressBody lib raw compression zstdLevel = .ok body ∧
      encoded = sealed lib key objectKey
        (header compression raw.length body.length (lib.crc32 raw).toNat ++ body) := by
  obtain ⟨body, hbody, h⟩ := Except.bind_eq_ok.mp h
  cases h
  exact ⟨body, hbody, rfl⟩

/-- How the decoder takes what the encoder wrote, under any reference. -/
theorem decode_encode_eq (object : PayloadRef) (hraw : raw.length < 2 ^ 32)
    (hbody : compressBody lib raw compression zstdLevel = .ok body)
    (hencoded : encoded = sealed lib key objectKey
      (header compression raw.length body.length (lib.crc32 raw).toNat ++ body)) :
    decode lib encoded object objectKey key =
      openBody lib object compression raw.length body.length (lib.crc32 raw).toNat body := by
  have hlength : headerLen ≤
      (header compression raw.length body.length (lib.crc32 raw).toNat ++ body).length := by
    rw [length_append, length_header]
    exact Nat.le_add_right _ _
  rw [hencoded, decode_of_sealed lib hlength]
  exact openPayload_header lib _ object (by omega) (length_compressBody lib hraw hbody)
    (lib.crc32 raw).toNat_lt

/-- A value is read back under the reference it was stored with. -/
theorem getDecoded_encode (hraw : raw.length < 2 ^ 32)
    (h : encode lib raw compression zstdLevel objectKey key = .ok encoded) :
    getDecoded lib encoded (reference lib raw compression objectKey encoded) key = .ok raw := by
  obtain ⟨body, hbody, hencoded⟩ := encode_eq_ok lib h
  have hstored : encoded.length = (reference lib raw compression objectKey encoded).storedLen := rfl
  rw [getDecoded, if_neg (not_not.mpr hstored)]
  refine (decode_encode_eq lib _ hraw hbody hencoded).trans ?_
  exact (openBody_eq_ok lib).mpr ⟨rfl, ⟨rfl, rfl, rfl⟩,
    decompressBody_compressBody lib hraw hbody, rfl, rfl⟩

/-- A payload that the encoder has produced. -/
structure Issued where
  raw : Bytes
  compression : ObjectOverflowCompression
  zstdLevel : ℤ
  objectKey : SharedBytes
  key : Bytes
  encoded : Bytes
  produced : encode lib raw compression zstdLevel objectKey.data key = .ok encoded

/-- The key and the input that a tag is computed from. -/
def tagInput (objectKey : SharedBytes) (key encoded : Bytes) : Bytes × Bytes :=
  (key, macInput objectKey.data (payloadOf encoded))

def Issued.tagInput {lib : PayloadPrimitives} (issued : Issued lib) : Bytes × Bytes :=
  ObjectPayload.tagInput issued.objectKey issued.key issued.encoded

/-- The tag differs for the inputs of the payloads that were encoded and of the presented one. -/
def TagsDiffer (issued : Set (Issued lib)) (presented : Bytes × Bytes) : Prop :=
  Set.InjOn (fun input => mac lib input.1 input.2)
    (insert presented (Set.image Issued.tagInput issued))

/-- A right tag has been seen on one of the payloads that were encoded. -/
def NotForged (issued : Set (Issued lib)) (objectKey : SharedBytes) (key encoded : Bytes) : Prop :=
  tagOf encoded = hmacSha256 lib key objectKey.data (payloadOf encoded) →
    ∃ payload ∈ issued, tagOf payload.encoded = tagOf encoded

variable {lib}

theorem Issued.value_of_decode (issued : Issued lib) (hraw : issued.raw.length < 2 ^ 32)
    (h : decode lib issued.encoded object issued.objectKey.data issued.key = .ok value) :
    value = issued.raw := by
  obtain ⟨body, hbody, hencoded⟩ := encode_eq_ok lib issued.produced
  rw [decode_encode_eq lib object hraw hbody hencoded] at h
  obtain ⟨-, -, hvalue, -⟩ := (openBody_eq_ok lib).mp h
  rw [decompressBody_compressBody lib hraw hbody] at hvalue
  exact (Except.ok.inj hvalue).symm

/-- An accepted payload is one that was encoded, under the same object key and with the same
authentication key. -/
theorem issued_of_decode {issued : Set (Issued lib)} {objectKey : SharedBytes}
    (htags : TagsDiffer lib issued (tagInput objectKey key encoded))
    (hforge : NotForged lib issued objectKey key encoded)
    (h : decode lib encoded object objectKey.data key = .ok value) :
    ∃ payload ∈ issued, payload.encoded = encoded ∧ payload.objectKey = objectKey ∧
      payload.key = key := by
  obtain ⟨presented, -, rfl⟩ := sealed_of_decode lib h
  obtain ⟨payload, hmem, htag⟩ := hforge (by rw [tagOf_sealed, payloadOf_sealed])
  obtain ⟨body, -, horiginal⟩ := encode_eq_ok lib payload.produced
  have hinput : payload.tagInput =
      tagInput objectKey key (sealed lib key objectKey.data presented) := by
    refine htags (Set.mem_insert_of_mem _ (Set.mem_image_of_mem _ hmem)) (Set.mem_insert _ _) ?_
    rw [horiginal, tagOf_sealed, tagOf_sealed] at htag
    simp only [Issued.tagInput, tagInput, horiginal, payloadOf_sealed]
    exact htag
  simp only [Issued.tagInput, tagInput, horiginal, payloadOf_sealed, Prod.mk.injEq] at hinput
  obtain ⟨hkey, hinput⟩ := hinput
  obtain ⟨hcontext, hpayload⟩ := macInput_inj payload.objectKey.size_lt objectKey.size_lt hinput
  have hobject : payload.objectKey = objectKey := by
    cases hcopy : payload.objectKey
    cases objectKey
    rw [hcopy] at hcontext
    cases hcontext
    rfl
  exact ⟨payload, hmem, by rw [horiginal, hkey, hobject, hpayload], hobject, hkey⟩

end Codec

theorem tagsDiffer_of_ne {lib : PayloadPrimitives} {issued : Issued lib} {presented : Bytes × Bytes}
    (h : mac lib issued.tagInput.1 issued.tagInput.2 ≠ mac lib presented.1 presented.2) :
    TagsDiffer lib {issued} presented := by
  rw [TagsDiffer, Set.image_singleton]
  refine (Set.injOn_insert ?_).mpr ⟨Set.injOn_singleton _ _, ?_⟩
  · rintro rfl
    exact h rfl
  · rw [Set.image_singleton]
    exact fun hmem => h hmem.symm

/-- Payloads are read back, and only payloads that were encoded are accepted. A value is
returned under the reference it was stored with. An accepted byte string was produced by the
encoder under the same object key, as long as tags differ for the inputs in play and are not
forged. -/
theorem payload_authentic (lib : PayloadPrimitives) :
    (∀ (raw : Bytes) (compression : ObjectOverflowCompression) (zstdLevel : ℤ)
      (objectKey key encoded : Bytes), raw.length < 2 ^ 32 →
      encode lib raw compression zstdLevel objectKey key = .ok encoded →
        getDecoded lib encoded (reference lib raw compression objectKey encoded) key = .ok raw) ∧
      ∀ (issued : Set (Issued lib)) (encoded key value : Bytes) (object : PayloadRef)
        (objectKey : SharedBytes), TagsDiffer lib issued (tagInput objectKey key encoded) →
        NotForged lib issued objectKey key encoded →
        decode lib encoded object objectKey.data key = .ok value →
          ∃ payload ∈ issued, payload.encoded = encoded ∧ payload.objectKey = objectKey ∧
            payload.key = key ∧ (payload.raw.length < 2 ^ 32 → value = payload.raw) := by
  refine ⟨fun raw compression zstdLevel objectKey key encoded hraw h =>
    getDecoded_encode lib hraw h, ?_⟩
  intro issued encoded key value object objectKey htags hforge h
  obtain ⟨payload, hmem, rfl, rfl, rfl⟩ := issued_of_decode htags hforge h
  exact ⟨payload, hmem, rfl, rfl, rfl, fun hraw => payload.value_of_decode hraw h⟩

/-- Libraries that store values as they are, with a polynomial in place of the hash. -/
def verbatim : PayloadPrimitives where
  crc32 _ := 0
  sha256 bytes := leBytes 32 (bytes.foldl (fun digest byte => digest * 257 + byte.toNat) 0)
  length_sha256 _ := length_leBytes _ _
  lz4Compress := id
  lz4DecompressInto body _ := .ok body
  lz4_inverse _ := rfl
  lz4_size_lt raw hraw := by
    rw [id]
    omega
  zstdCompress raw _ := .ok raw
  zstdDecompress body _ := .ok body
  zstd_inverse _ _ _ h := h.symm
  zstd_size_lt raw _ body hraw h := by
    cases h
    omega

def storedValue : Issued verbatim where
  raw := [5, 6]
  compression := .none
  zstdLevel := 0
  objectKey := ⟨[97], by decide⟩
  key := List.replicate 32 7
  encoded := sealed verbatim (List.replicate 32 7) [97] (header .none 2 2 0 ++ [5, 6])
  produced := rfl

/-- A value stored without compression is accepted under its object key `a`, and would not be
under `b`. -/
theorem payload_authentic_verbatim : getDecoded verbatim storedValue.encoded
        (reference verbatim [5, 6] .none [97] storedValue.encoded) storedValue.key = .ok [5, 6] ∧
      ∀ value object, decode verbatim storedValue.encoded object [98] storedValue.key ≠
        .ok value := by
  refine ⟨(payload_authentic verbatim).1 [5, 6] .none 0 [97] storedValue.key storedValue.encoded
    (by decide) storedValue.produced, ?_⟩
  intro value object h
  have hne : mac verbatim storedValue.tagInput.1 storedValue.tagInput.2 ≠
      hmacSha256 verbatim storedValue.key [98] (payloadOf storedValue.encoded) := by
    decide +kernel
  obtain ⟨payload, hmem, -, hkey, -⟩ := (payload_authentic verbatim).2 {storedValue}
    storedValue.encoded storedValue.key value object ⟨[98], by decide⟩
    (tagsDiffer_of_ne hne) (fun _ => ⟨storedValue, rfl, rfl⟩) h
  cases hmem
  exact absurd (congrArg SharedBytes.data hkey) (by decide)

end ObjectPayload
end ShardKv
