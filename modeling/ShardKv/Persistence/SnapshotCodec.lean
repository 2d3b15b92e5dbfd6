import ShardKv.Persistence.Recovery

/-!
# The format of snapshots

A snapshot is a header with the number of entries, and the entries one after
the other. There are two readers: one of a body that is in memory, and one that
reads a stream and hands each entry to a visitor. Both read an older version of
the format, without governance tokens, as well.

A cursor into a body, like a stream, is the part that has not been read.
Allocations succeed.
-/
namespace ShardKv

def snapshotMagic : Bytes := [70, 67, 83, 78, 65, 80, 49, 0]

def snapshotVersionV1 : ℕ := 1

def snapshotVersion : ℕ := 2

def snapshotHeaderLen : ℕ := 8 + 4 + 8 + 8

def snapshotEntryHeaderV1Len : ℕ := 4 + 4 + 8

def snapshotEntryHeaderLen : ℕ := 4 + 4 + 4 + 8

def governanceNone : ℕ := 2 ^ 32 - 1

/-- The stored deadline of an entry without one. -/
def expireNone : ℕ := 2 ^ 64 - 1

namespace SnapshotCodec

variable (input : Bytes)

variable (len : ℕ)

def encodedLen (message : String) : Except String ℕ :=
  if len < 2 ^ 32 then .ok len else .error message

def encodedGovernanceLen (governance : Option Bytes) : Except String ℕ :=
  match governance with
  | some metadata => encodedLen metadata.length "snapshot governance is too large"
  | none => .ok governanceNone

def writeEntry (entry : StoredEntry) : Except String Bytes := do
  let keyLen ← encodedLen entry.key.length "snapshot key is too large"
  let valueLen ← encodedLen entry.value.length "snapshot value is too large"
  let governanceLen ← encodedGovernanceLen entry.governance
  return leBytes 4 keyLen ++ (leBytes 4 valueLen ++ (leBytes 4 governanceLen ++
    (leBytes 8 (entry.expireAtMs.getD expireNone) ++ (entry.key ++ (entry.value ++
      entry.governance.getD [])))))

def writeHeader (timestampMs entryCount : ℕ) : Bytes :=
  snapshotMagic ++ (leBytes 4 snapshotVersion ++ (leBytes 8 timestampMs ++ leBytes 8 entryCount))

def writeEntries : List StoredEntry → Except String Bytes
  | [] => .ok []
  | entry :: entries => do
    let bytes ← writeEntry entry
    let rest ← writeEntries entries
    return bytes ++ rest

/-- The order entries are written in: by hash, entries with equal hashes as they came. -/
def sortByHash (hashKey : Bytes → ℕ) (entries : List StoredEntry) : List StoredEntry :=
  entries.mergeSort fun first second => decide (hashKey first.key ≤ hashKey second.key)

def encode (hashKey : Bytes → ℕ) (entries : List StoredEntry) (timestampMs : ℕ) :
    Except String Bytes := do
  let entries := sortByHash hashKey entries
  let body ← writeEntries entries
  return writeHeader timestampMs entries.length ++ body

/-- The fixed-size part of an entry. -/
structure EntryHeader where
  keyLen : ℕ
  valueLen : ℕ
  governanceLen : ℕ
  expireRaw : ℕ

variable (version : ℕ)

def entryHeaderLen : ℕ :=
  if version = snapshotVersionV1 then snapshotEntryHeaderV1Len else snapshotEntryHeaderLen

def storedDeadline (expireRaw : ℕ) : Option ℕ :=
  if expireRaw = expireNone then none else some expireRaw

variable (field : String)

def readExact : Except String (Bytes × Bytes) :=
  if input.length < len then .error s!"{field} is truncated"
  else .ok (input.take len, input.drop len)

def readU32 : Except String (ℕ × Bytes) := do
  let (bytes, rest) ← readExact input 4 field
  return (leValue bytes, rest)

def readU64 : Except String (ℕ × Bytes) := do
  let (bytes, rest) ← readExact input 8 field
  return (leValue bytes, rest)

def readGovernanceLen : Except String (ℕ × Bytes) :=
  if version = snapshotVersionV1 then .ok (governanceNone, input)
  else readU32 input "snapshot governance length"

def decodeEntryFields : Except String (EntryHeader × Bytes) := do
  let (keyLen, input) ← readU32 input "snapshot key length"
  let (valueLen, input) ← readU32 input "snapshot value length"
  let (governanceLen, input) ← readGovernanceLen input version
  let (expireRaw, input) ← readU64 input "snapshot expiration"
  return ({ keyLen, valueLen, governanceLen, expireRaw }, input)

variable (header : EntryHeader)

def EntryHeader.governanceBodyLen : ℕ :=
  if header.governanceLen = governanceNone then 0 else header.governanceLen

def decodeEntryBody : Except String (StoredEntry × Bytes) :=
  let bodyLen := header.keyLen + header.valueLen + header.governanceBodyLen
  if input.length < bodyLen then .error "snapshot entry body is truncated"
  else
    let afterKey := input.drop header.keyLen
    let afterValue := afterKey.drop header.valueLen
    .ok ({
      key := input.take header.keyLen
      value := afterKey.take header.valueLen
      expireAtMs := storedDeadline header.expireRaw
      governance :=
        if header.governanceLen = governanceNone then none
        else some (afterValue.take header.governanceBodyLen) },
      afterValue.drop header.governanceBodyLen)

def decodeEntry : Except String (StoredEntry × Bytes) :=
  if input.length < entryHeaderLen version then .error "snapshot entry header is truncated"
  else do
    let (header, input) ← decodeEntryFields input version
    decodeEntryBody input header

/-- The loop over the entries. -/
def decodeEntries (version : ℕ) : ℕ → Bytes → Except String (List StoredEntry × Bytes)
  | 0, input => .ok ([], input)
  | count + 1, input => do
    let (entry, input) ← decodeEntry input version
    let (entries, input) ← decodeEntries version count input
    return (entry :: entries, input)

def decodeBody : Except String (ℕ × List StoredEntry) := do
  let (timestampMs, input) ← readU64 input "snapshot timestamp"
  let (entryCount, input) ← readU64 input "snapshot entry count"
  if input.length / snapshotEntryHeaderV1Len < entryCount then
    .error "snapshot entry count exceeds the remaining body"
  else do
    -- what follows the last entry is not looked at
    let (entries, _) ← decodeEntries version entryCount input
    return (timestampMs, entries)

def decodeValidated (raw : Bytes) : Except String (ℕ × List StoredEntry) := do
  let (version, input) ← readU32 (raw.drop snapshotMagic.length) "snapshot version"
  if version = snapshotVersionV1 ∨ version = snapshotVersion then decodeBody input version
  else .error s!"unsupported snapshot version: {version}"

def decode (raw : Bytes) : Except String (ℕ × List StoredEntry) :=
  if raw.length < snapshotHeaderLen then .error "snapshot header is truncated"
  else if ¬snapshotMagic <+: raw then .error "snapshot magic mismatch"
  else decodeValidated raw

def unexpectedEof : String := "failed to fill whole buffer"

/-- Fills a buffer of `len` bytes from the stream. -/
def streamExact (what : String) : Except String (Bytes × Bytes) :=
  if input.length < len then .error s!"could not read snapshot {what}: {unexpectedEof}"
  else .ok (input.take len, input.drop len)

def readStreamBytes : Except String (Bytes × Bytes) :=
  streamExact input len field

def streamGovernance (governanceLen : ℕ) : Except String (Option Bytes × Bytes) :=
  if governanceLen ≠ governanceNone then
    (readStreamBytes input governanceLen "governance").map fun read => (some read.1, read.2)
  else .ok (none, input)

/-- The fields of the entry header that was read into `header`. -/
def streamEntryFields (header : Bytes) (version : ℕ) : EntryHeader where
  keyLen := leValue (byteSlice header 0 4)
  valueLen := leValue (byteSlice header 4 4)
  governanceLen :=
    if version = snapshotVersionV1 then governanceNone else leValue (byteSlice header 8 4)
  expireRaw := leValue (byteSlice header (if version = snapshotVersionV1 then 8 else 12) 8)

def decodeStreamBody : Except String (StoredEntry × Bytes) := do
  let (key, input) ← readStreamBytes input header.keyLen "key"
  let (value, input) ← readStreamBytes input header.valueLen "value"
  let (governance, input) ← streamGovernance input header.governanceLen
  return ({ key, value, expireAtMs := storedDeadline header.expireRaw, governance }, input)

def decodeStreamEntry : Except String (StoredEntry × Bytes) := do
  let (header, input) ← streamExact input (entryHeaderLen version) "entry header"
  decodeStreamBody input (streamEntryFields header version)

section Visitor

variable {τ : Type} (visit : τ → StoredEntry → Except String τ)

def visitEntries (version : ℕ) : ℕ → Bytes → τ → Except String (τ × Bytes)
  | 0, input, state => .ok (state, input)
  | count + 1, input, state => do
    let (entry, input) ← decodeStreamEntry input version
    let state ← visit state entry
    visitEntries version count input state

/-- The visitor's last state and the timestamp, if the stream ends after the last entry. -/
def visitBody (version timestampMs entryCount : ℕ) (input : Bytes) (state : τ) :
    Except String (ℕ × τ) := do
  let (state, input) ← visitEntries visit version entryCount input state
  if input ≠ [] then .error "snapshot has trailing bytes" else .ok (timestampMs, state)

def decodeStream (input : Bytes) (state : τ) : Except String (ℕ × τ) := do
  let (header, input) ← streamExact input snapshotHeaderLen "header"
  if ¬snapshotMagic <+: header then .error "snapshot magic mismatch"
  else
    let version := leValue (byteSlice header 8 4)
    if version = snapshotVersionV1 ∨ version = snapshotVersion then
      visitBody visit version (leValue (byteSlice header 12 8)) (leValue (byteSlice header 20 8))
        input state
    else .error s!"unsupported snapshot version: {version}"

end Visitor

/-- The visitor that keeps all entries. -/
def collect (entries : List StoredEntry) (entry : StoredEntry) : Except String (List StoredEntry) :=
  .ok (entries ++ [entry])

def decodeStreamEntries : Except String (ℕ × List StoredEntry) := decodeStream collect input []

end SnapshotCodec
end ShardKv
