import ShardKv.Foundations.FrameLog
import ShardKv.Persistence.SnapshotCodec

/-!
# Entries of snapshots

The encodings of entries and of whole snapshots are described without a reader.
The two readers check the parts of an entry at different moments, but both
accept exactly the encodings of representable entries.
-/
namespace ShardKv.SnapshotCodec

open List Option
variable {input : Bytes} {out : StoredEntry × Bytes}
  {rest body : Bytes} {header : EntryHeader} {version : ℕ}

/-- What an entry of the given version can hold. -/
structure Representable (version : ℕ) (entry : StoredEntry) : Prop where
  key_lt : entry.key.length < 2 ^ 32
  value_lt : entry.value.length < 2 ^ 32
  deadline_lt : ∀ deadline ∈ entry.expireAtMs, deadline < expireNone
  token_lt : ∀ token ∈ entry.governance, token.length < governanceNone
  token_version : version = snapshotVersionV1 → entry.governance = none

def storedGovernanceLen (governance : Option Bytes) : ℕ :=
  (governance.map List.length).getD governanceNone

def governanceField (version : ℕ) (governance : Option Bytes) : Bytes :=
  if version = snapshotVersionV1 then [] else leBytes 4 (storedGovernanceLen governance)

def entryFields (version : ℕ) (entry : StoredEntry) : Bytes :=
  leBytes 4 entry.key.length ++ (leBytes 4 entry.value.length ++
    (governanceField version entry.governance ++ leBytes 8 (entry.expireAtMs.getD expireNone)))

def entryBytes (version : ℕ) (entry : StoredEntry) : Bytes :=
  entryFields version entry ++ (entry.key ++ (entry.value ++ entry.governance.getD []))

def snapshotBytes (version timestampMs : ℕ) (entries : List StoredEntry) : Bytes :=
  snapshotMagic ++ (leBytes 4 version ++ (leBytes 8 timestampMs ++ (leBytes 8 entries.length ++
    entries.flatMap (entryBytes version))))

/-- The contents of a snapshot of one of the two versions. -/
structure IsSnapshot (version timestampMs : ℕ) (entries : List StoredEntry) : Prop where
  version_known : version = snapshotVersionV1 ∨ version = snapshotVersion
  timestamp_lt : timestampMs < 2 ^ 64
  count_lt : entries.length < 2 ^ 64
  representable : ∀ entry ∈ entries, Representable version entry

/-- The fields at the start of the input. -/
def headerAt (input : Bytes) (version : ℕ) : EntryHeader := streamEntryFields input version

/-- The entry with the given header whose body is at the start of the input. -/
def entryAt (input : Bytes) (header : EntryHeader) : StoredEntry where
  key := input.take header.keyLen
  value := (input.drop header.keyLen).take header.valueLen
  expireAtMs := storedDeadline header.expireRaw
  governance :=
    if header.governanceLen = governanceNone then none
    else some (((input.drop header.keyLen).drop header.valueLen).take header.governanceLen)

def EntryHeader.bodyLen (header : EntryHeader) : ℕ :=
  header.keyLen + header.valueLen + header.governanceBodyLen

open EntryHeader
theorem readU32_eq (input : Bytes) (field : String) :
    readU32 input field = if input.length < 4 then .error s!"{field} is truncated"
      else .ok (leValue (input.take 4), input.drop 4) := by
  rw [readU32, readExact]
  split_ifs <;> rfl

theorem readU64_eq (input : Bytes) (field : String) :
    readU64 input field = if input.length < 8 then .error s!"{field} is truncated"
      else .ok (leValue (input.take 8), input.drop 8) := by
  rw [readU64, readExact]
  split_ifs <;> rfl

theorem decodeEntryFields_eq (h : entryHeaderLen version ≤ input.length) :
    decodeEntryFields input version =
      .ok (headerAt input version, input.drop (entryHeaderLen version)) := by
  unfold entryHeaderLen snapshotEntryHeaderV1Len snapshotEntryHeaderLen at h
  have hkey : ¬input.length < 4 := by split_ifs at h <;> omega
  have hvalue : ¬(input.drop 4).length < 4 := by
    rw [length_drop]
    split_ifs at h <;> omega
  rw [decodeEntryFields, readU32_eq, if_neg hkey]
  simp only [bind, Except.bind]
  rw [readU32_eq, if_neg hvalue]
  simp only [readGovernanceLen, entryHeaderLen]
  split_ifs at h ⊢ with hversion
  · have hdeadline : ¬((input.drop 4).drop 4).length < 8 := by
      rw [length_drop, length_drop]
      omega
    simp only [readU64_eq, if_neg hdeadline]
    simp only [headerAt, streamEntryFields, if_pos hversion, byteSlice, drop_drop, drop_zero]
    rfl
  · have hgovernance : ¬((input.drop 4).drop 4).length < 4 := by
      rw [length_drop, length_drop]
      omega
    have hdeadline : ¬(((input.drop 4).drop 4).drop 4).length < 8 := by
      rw [length_drop, length_drop, length_drop]
      omega
    simp only [readU32_eq, if_neg hgovernance, readU64_eq, if_neg hdeadline]
    simp only [headerAt, streamEntryFields, if_neg hversion, byteSlice, drop_drop, drop_zero]
    rfl

/-- The bytes of an entry and what follows them, when they are all there. -/
def parseEntry (input : Bytes) (version : ℕ) : Option (StoredEntry × Bytes) :=
  let body := input.drop (entryHeaderLen version)
  let header := headerAt input version
  if input.length < entryHeaderLen version then none
  else if body.length < header.bodyLen then none
  else some (entryAt body header, body.drop header.bodyLen)

variable (input header) in
theorem decodeEntryBody_eq : decodeEntryBody input header =
      if input.length < header.bodyLen then .error "snapshot entry body is truncated"
      else .ok (entryAt input header, input.drop header.bodyLen) := by
  have hrest : ((input.drop header.keyLen).drop header.valueLen).drop header.governanceBodyLen =
      input.drop header.bodyLen := by
    rw [drop_drop, drop_drop, bodyLen, add_assoc]
  simp only [decodeEntryBody, entryAt, hrest]
  by_cases hnone : header.governanceLen = governanceNone
  · simp only [if_pos hnone, bodyLen]
  · simp only [if_neg hnone, bodyLen, governanceBodyLen]

theorem decodeEntry_eq_ok :
    decodeEntry input version = .ok out ↔ parseEntry input version = some out := by
  simp only [decodeEntry, parseEntry]
  by_cases hheader : input.length < entryHeaderLen version
  · simp [hheader]
  · rw [if_neg hheader, if_neg hheader, decodeEntryFields_eq (by omega)]
    show decodeEntryBody _ _ = _ ↔ _
    rw [decodeEntryBody_eq]
    split_ifs <;> simp

theorem streamExact_eq_ok {bytes : Bytes} {len : ℕ} {what : String} :
    streamExact input len what = .ok (bytes, rest) ↔
      len ≤ input.length ∧ input.take len = bytes ∧ input.drop len = rest := by
  rw [streamExact]
  split_ifs with h
  · simp [h]
  · simp only [Except.ok.injEq, Prod.mk.injEq]
    exact (and_iff_right (by omega)).symm

theorem streamGovernance_eq_ok {governanceLen : ℕ} {governance : Option Bytes} :
    streamGovernance input governanceLen = .ok (governance, rest) ↔
      (if governanceLen = governanceNone then 0 else governanceLen) ≤ input.length ∧
        (if governanceLen = governanceNone then none else some (input.take governanceLen)) =
          governance ∧
        input.drop (if governanceLen = governanceNone then 0 else governanceLen) = rest := by
  rw [streamGovernance]
  by_cases hnone : governanceLen = governanceNone
  · simp [hnone]
  · rw [if_pos hnone, if_neg hnone, if_neg hnone, Except.map_eq_ok]
    constructor
    · rintro ⟨⟨bytes, after⟩, hread, hout⟩
      cases hout
      obtain ⟨hlen, rfl, rfl⟩ := streamExact_eq_ok.mp hread
      exact ⟨hlen, rfl, rfl⟩
    · rintro ⟨hlen, rfl, rfl⟩
      exact ⟨_, streamExact_eq_ok.mpr ⟨hlen, rfl, rfl⟩, rfl⟩

/-- Checking the parts one by one accepts what checking them together does. -/
theorem decodeStreamBody_eq_ok : decodeStreamBody input header = .ok out ↔
      ¬input.length < header.bodyLen ∧ (entryAt input header, input.drop header.bodyLen) = out := by
  constructor
  · intro h
    obtain ⟨⟨key, afterKey⟩, hkey, h⟩ := Except.bind_eq_ok.mp h
    obtain ⟨⟨value, afterValue⟩, hvalue, h⟩ := Except.bind_eq_ok.mp h
    obtain ⟨⟨governance, rest⟩, hgovernance, h⟩ := Except.bind_eq_ok.mp h
    cases h
    obtain ⟨hkeyLen, rfl, rfl⟩ := streamExact_eq_ok.mp hkey
    obtain ⟨hvalueLen, rfl, rfl⟩ := streamExact_eq_ok.mp hvalue
    obtain ⟨hgovernanceLen, rfl, rfl⟩ := streamGovernance_eq_ok.mp hgovernance
    simp only [length_drop] at hvalueLen hgovernanceLen
    refine ⟨?_, ?_⟩
    · rw [bodyLen, governanceBodyLen]
      omega
    · simp only [entryAt, bodyLen, governanceBodyLen, drop_drop]
  · rintro ⟨hlen, rfl⟩
    rw [bodyLen, governanceBodyLen] at hlen
    refine Except.bind_eq_ok.mpr ⟨_, streamExact_eq_ok.mpr ⟨by omega, rfl, rfl⟩, ?_⟩
    refine Except.bind_eq_ok.mpr ⟨_, streamExact_eq_ok.mpr ⟨?_, rfl, rfl⟩, ?_⟩
    · rw [length_drop]
      omega
    refine Except.bind_eq_ok.mpr ⟨_, streamGovernance_eq_ok.mpr ⟨?_, rfl, rfl⟩, ?_⟩
    · rw [length_drop, length_drop]
      omega
    · simp only [entryAt, bodyLen, governanceBodyLen, drop_drop]
      rfl

theorem streamEntryFields_take (h : entryHeaderLen version ≤ input.length) :
    streamEntryFields (input.take (entryHeaderLen version)) version = headerAt input version := by
  have hlen : entryHeaderLen version = if version = snapshotVersionV1 then 16 else 20 := rfl
  rw [headerAt, streamEntryFields, streamEntryFields]
  by_cases hversion : version = snapshotVersionV1
  · simp only [if_pos hversion] at hlen ⊢
    rw [byteSlice_take h (by omega), byteSlice_take h (by omega), byteSlice_take h (by omega)]
  · simp only [if_neg hversion] at hlen ⊢
    rw [byteSlice_take h (by omega), byteSlice_take h (by omega), byteSlice_take h (by omega),
      byteSlice_take h (by omega)]

theorem decodeStreamEntry_eq_ok :
    decodeStreamEntry input version = .ok out ↔ parseEntry input version = some out := by
  rw [decodeStreamEntry, parseEntry]
  constructor
  · intro h
    obtain ⟨⟨header, body⟩, hheader, hbody⟩ := Except.bind_eq_ok.mp h
    obtain ⟨hlen, rfl, rfl⟩ := streamExact_eq_ok.mp hheader
    simp only [streamEntryFields_take hlen] at hbody
    obtain ⟨hbodyLen, rfl⟩ := decodeStreamBody_eq_ok.mp hbody
    rw [if_neg (by omega), if_neg hbodyLen]
  · intro h
    split_ifs at h with hheader hbody
    cases h
    refine Except.bind_eq_ok.mpr ⟨_, streamExact_eq_ok.mpr ⟨by omega, rfl, rfl⟩, ?_⟩
    simp only [streamEntryFields_take (Nat.le_of_not_lt hheader)]
    exact decodeStreamBody_eq_ok.mpr ⟨hbody, rfl⟩

theorem length_governanceField (version : ℕ) (governance : Option Bytes) :
    (governanceField version governance).length = if version = snapshotVersionV1 then 0 else 4 := by
  rw [governanceField]
  split_ifs <;> simp

theorem length_entryFields (version : ℕ) (entry : StoredEntry) :
    (entryFields version entry).length = entryHeaderLen version := by
  simp only [entryFields, length_append, length_leBytes, length_governanceField,
    entryHeaderLen, snapshotEntryHeaderV1Len, snapshotEntryHeaderLen]
  split_ifs <;> rfl

/-- The header that describes an entry. -/
def headerOf (entry : StoredEntry) : EntryHeader where
  keyLen := entry.key.length
  valueLen := entry.value.length
  governanceLen := storedGovernanceLen entry.governance
  expireRaw := entry.expireAtMs.getD expireNone

namespace Representable

variable {entry : StoredEntry} (h : Representable version entry)
include h

theorem deadline_le : entry.expireAtMs.getD expireNone < 2 ^ 64 := by
  cases hdeadline : entry.expireAtMs with
  | none => decide
  | some deadline =>
    have hlt := h.deadline_lt deadline hdeadline
    rw [expireNone] at hlt
    rw [getD_some]
    omega

theorem storedGovernanceLen_lt : storedGovernanceLen entry.governance < 2 ^ 32 := by
  cases htoken : entry.governance with
  | none => decide
  | some token =>
    have hlt := h.token_lt token htoken
    rw [governanceNone] at hlt
    simp only [storedGovernanceLen, map_some, getD_some]
    omega

theorem storedDeadline_getD : storedDeadline (entry.expireAtMs.getD expireNone) =
    entry.expireAtMs := by
  cases hdeadline : entry.expireAtMs with
  | none => rfl
  | some deadline =>
    have hlt := h.deadline_lt deadline hdeadline
    rw [getD_some, storedDeadline, if_neg (by omega)]

theorem headerAt_entryFields (tail : Bytes) :
    headerAt (entryFields version entry ++ tail) version = headerOf entry := by
  have hkey : leValue (byteSlice (entryFields version entry ++ tail) 0 4) = entry.key.length := by
    rw [entryFields, append_assoc, byteSlice_append_zero _ (length_leBytes _ _), leValue_leBytes]
    exact Nat.mod_eq_of_lt h.key_lt
  have hvalue : leValue (byteSlice (entryFields version entry ++ tail) 4 4) =
      entry.value.length := by
    rw [entryFields, append_assoc, byteSlice_append_right _ (by simp), length_leBytes,
      Nat.sub_self, append_assoc, byteSlice_append_zero _ (length_leBytes _ _),
      leValue_leBytes]
    exact Nat.mod_eq_of_lt h.value_lt
  -- the fields after the two lengths
  have hrest : ∀ start len, byteSlice (entryFields version entry ++ tail) (8 + start) len =
      byteSlice (governanceField version entry.governance ++
        (leBytes 8 (entry.expireAtMs.getD expireNone) ++ tail)) start len := by
    intro start len
    rw [entryFields, append_assoc, byteSlice_append_right _ (by simp; omega), append_assoc,
      byteSlice_append_right _ (by simp; omega), append_assoc]
    congr 1
    simp only [length_leBytes]
    omega
  rw [headerAt, streamEntryFields, headerOf, hkey, hvalue, mk.injEq]
  refine ⟨rfl, rfl, ?_, ?_⟩
  · split_ifs with hversion
    · rw [h.token_version hversion]
      rfl
    · rw [hrest 0 4, governanceField, if_neg hversion,
        byteSlice_append_zero _ (length_leBytes _ _), leValue_leBytes]
      exact Nat.mod_eq_of_lt h.storedGovernanceLen_lt
  · split_ifs with hversion
    · rw [hrest 0 8, governanceField, if_pos hversion, nil_append,
        byteSlice_append_zero _ (length_leBytes _ _), leValue_leBytes]
      exact Nat.mod_eq_of_lt h.deadline_le
    · rw [hrest 4 8, governanceField, if_neg hversion, byteSlice_append_right _ (by simp),
        length_leBytes, Nat.sub_self, byteSlice_append_zero _ (length_leBytes _ _),
        leValue_leBytes]
      exact Nat.mod_eq_of_lt h.deadline_le

theorem governanceBodyLen_headerOf :
    (headerOf entry).governanceBodyLen = (entry.governance.getD []).length := by
  have hstored : (headerOf entry).governanceLen = storedGovernanceLen entry.governance := rfl
  rw [governanceBodyLen, hstored]
  cases htoken : entry.governance with
  | none => rfl
  | some token =>
    have hlt := h.token_lt token htoken
    have hlen : storedGovernanceLen (some token) = token.length := rfl
    rw [hlen, if_neg (by omega), getD_some]

theorem entryAt_headerOf (rest : Bytes) :
    entryAt (entry.key ++ (entry.value ++ (entry.governance.getD [] ++ rest))) (headerOf entry) =
      entry := by
  have hgovernance : (if (headerOf entry).governanceLen = governanceNone then none
      else some ((entry.governance.getD [] ++ rest).take (headerOf entry).governanceLen)) =
        entry.governance := by
    have hstored : (headerOf entry).governanceLen = storedGovernanceLen entry.governance := rfl
    rw [hstored]
    cases htoken : entry.governance with
    | none => rfl
    | some token =>
      have hlt := h.token_lt token htoken
      have hlen : storedGovernanceLen (some token) = token.length := rfl
      rw [hlen, if_neg (by omega), getD_some, take_left]
  have hkeyLen : (headerOf entry).keyLen = entry.key.length := rfl
  have hvalueLen : (headerOf entry).valueLen = entry.value.length := rfl
  have hraw : (headerOf entry).expireRaw = entry.expireAtMs.getD expireNone := rfl
  rw [entryAt, hkeyLen, hvalueLen, hraw, take_left, drop_left, take_left,
    drop_left, hgovernance, h.storedDeadline_getD]

theorem parseEntry_entryBytes (rest : Bytes) :
    parseEntry (entryBytes version entry ++ rest) version = some (entry, rest) := by
  have hbytes : entryBytes version entry ++ rest = entryFields version entry ++
      (entry.key ++ (entry.value ++ (entry.governance.getD [] ++ rest))) := by
    simp [entryBytes]
  have hlen := length_entryFields version entry
  have hbodyLen : (headerOf entry).bodyLen =
      (entry.key ++ (entry.value ++ entry.governance.getD [])).length := by
    rw [bodyLen, h.governanceBodyLen_headerOf]
    simp only [headerOf, length_append]
    omega
  have hbody : entry.key ++ (entry.value ++ (entry.governance.getD [] ++ rest)) =
      (entry.key ++ (entry.value ++ entry.governance.getD [])) ++ rest := by
    simp
  simp only [parseEntry]
  rw [hbytes, h.headerAt_entryFields, ← hlen, drop_left, if_neg (by simp), h.entryAt_headerOf,
    hbodyLen, hbody, drop_left, if_neg (by rw [length_append]; omega)]

end Representable

theorem fieldBytes_headerAt (h : entryHeaderLen version ≤ input.length) :
    input = leBytes 4 (headerAt input version).keyLen ++
      (leBytes 4 (headerAt input version).valueLen ++
        ((if version = snapshotVersionV1 then [] else leBytes 4
          (headerAt input version).governanceLen)
          ++ (leBytes 8 (headerAt input version).expireRaw ++
            input.drop (entryHeaderLen version)))) := by
  have hlen : entryHeaderLen version = if version = snapshotVersionV1 then 16 else 20 := rfl
  simp only [headerAt, streamEntryFields]
  by_cases hversion : version = snapshotVersionV1
  · simp only [if_pos hversion] at hlen ⊢
    rw [hlen, leBytes_leValue_byteSlice (by omega), leBytes_leValue_byteSlice (by omega),
      leBytes_leValue_byteSlice (by omega), nil_append, byteSlice_append_drop _ 8 8,
      byteSlice_append_drop _ 4 4, byteSlice_append_drop _ 0 4, drop_zero]
  · simp only [if_neg hversion] at hlen ⊢
    rw [hlen, leBytes_leValue_byteSlice (by omega), leBytes_leValue_byteSlice (by omega),
      leBytes_leValue_byteSlice (by omega), leBytes_leValue_byteSlice (by omega),
      byteSlice_append_drop _ 12 8, byteSlice_append_drop _ 8 4, byteSlice_append_drop _ 4 4,
      byteSlice_append_drop _ 0 4, drop_zero]

/-- The ranges of the fields of an entry header. -/
structure EntryHeader.InRange (header : EntryHeader) (version : ℕ) : Prop where
  key_lt : header.keyLen < 2 ^ 32
  value_lt : header.valueLen < 2 ^ 32
  governance_lt : header.governanceLen < 2 ^ 32
  deadline_lt : header.expireRaw < 2 ^ 64
  governance_version : version = snapshotVersionV1 → header.governanceLen = governanceNone

theorem inRange_headerAt (h : entryHeaderLen version ≤ input.length) :
    (headerAt input version).InRange version := by
  have hlen : entryHeaderLen version = if version = snapshotVersionV1 then 16 else 20 := rfl
  have hlong : 16 ≤ input.length := by
    rw [hlen] at h
    split_ifs at h <;> omega
  refine ⟨?_, ?_, ?_, ?_, ?_⟩
  · exact leValue_byteSlice_lt (by omega)
  · exact leValue_byteSlice_lt (by omega)
  · simp only [headerAt, streamEntryFields]
    split_ifs at hlen ⊢
    · decide
    · exact leValue_byteSlice_lt (by omega)
  · simp only [headerAt, streamEntryFields]
    split_ifs at hlen ⊢
    · exact leValue_byteSlice_lt (by omega)
    · exact leValue_byteSlice_lt (by omega)
  · intro hversion
    simp only [headerAt, streamEntryFields, if_pos hversion]

theorem storedGovernanceLen_entryAt (hbody : ¬body.length < header.bodyLen) :
    storedGovernanceLen (entryAt body header).governance = header.governanceLen := by
  rw [bodyLen, governanceBodyLen] at hbody
  simp only [entryAt]
  split_ifs at hbody ⊢ with hnone
  · exact hnone.symm
  · simp only [storedGovernanceLen, map_some, getD_some, length_take, length_drop]
    omega

variable (body header) in
theorem expireAtMs_entryAt :
    (entryAt body header).expireAtMs.getD expireNone = header.expireRaw := by
  simp only [entryAt, storedDeadline]
  split_ifs with hnone
  · exact hnone.symm
  · rfl

theorem length_key_entryAt (hbody : ¬body.length < header.bodyLen) :
    (entryAt body header).key.length = header.keyLen := by
  rw [bodyLen] at hbody
  simp only [entryAt, length_take]
  omega

theorem length_value_entryAt (hbody : ¬body.length < header.bodyLen) :
    (entryAt body header).value.length = header.valueLen := by
  rw [bodyLen] at hbody
  simp only [entryAt, length_take, length_drop]
  omega

theorem representable_entryAt
    (hheader : header.InRange version) (hbody : ¬body.length < header.bodyLen) :
    Representable version (entryAt body header) where
  key_lt := by
    rw [length_key_entryAt hbody]
    exact hheader.key_lt
  value_lt := by
    rw [length_value_entryAt hbody]
    exact hheader.value_lt
  deadline_lt := by
    intro deadline hdeadline
    simp only [entryAt, storedDeadline] at hdeadline
    split_ifs at hdeadline with hnone
    · cases hdeadline
    · cases hdeadline
      have hlt := hheader.deadline_lt
      rw [expireNone] at hnone ⊢
      omega
  token_lt := by
    intro token htoken
    have hstored := storedGovernanceLen_entryAt hbody
    have hlt := hheader.governance_lt
    have hne : header.governanceLen ≠ governanceNone := by
      rintro hnone
      simp only [entryAt, if_pos hnone] at htoken
      cases htoken
    rw [htoken] at hstored
    simp only [storedGovernanceLen, map_some, getD_some] at hstored
    rw [governanceNone] at hne ⊢
    omega
  token_version := by
    intro hversion
    simp only [entryAt, if_pos (hheader.governance_version hversion)]

variable (body header) in
theorem entryAt_append_drop : (entryAt body header).key ++ ((entryAt body header).value ++
      ((entryAt body header).governance.getD [] ++ body.drop header.bodyLen)) = body := by
  have hgovernance : (entryAt body header).governance.getD [] ++ body.drop header.bodyLen =
      (body.drop header.keyLen).drop header.valueLen := by
    simp only [entryAt, bodyLen, governanceBodyLen, ← drop_drop]
    split_ifs
    · simp
    · rw [getD_some, take_append_drop]
  rw [hgovernance]
  simp only [entryAt, take_append_drop]

/-- Entries are parsed from their encodings and from nothing else. -/
theorem parseEntry_eq_some {entry : StoredEntry} : parseEntry input version = some (entry, rest) ↔
      Representable version entry ∧ input = entryBytes version entry ++ rest := by
  constructor
  · intro h
    simp only [parseEntry] at h
    split_ifs at h with hheader hbody
    cases h
    have hlen : entryHeaderLen version ≤ input.length := by omega
    refine ⟨representable_entryAt (inRange_headerAt hlen) hbody, ?_⟩
    have hfields := fieldBytes_headerAt hlen
    rw [← entryAt_append_drop (input.drop (entryHeaderLen version)) (headerAt input version)]
      at hfields
    simp only [entryBytes, entryFields, governanceField, length_key_entryAt hbody,
      length_value_entryAt hbody, storedGovernanceLen_entryAt hbody, expireAtMs_entryAt,
      append_assoc]
    exact hfields
  · rintro ⟨hentry, rfl⟩
    exact hentry.parseEntry_entryBytes rest

def parseEntries (version count : ℕ) (input : Bytes) : Option (List StoredEntry × Bytes) :=
  parseTimes (fun input => parseEntry input version) count input

variable {count : ℕ} {entries : List StoredEntry}

theorem parseEntries_succ_eq_some :
    parseEntries version (count + 1) input = some (entries, rest) ↔
      ∃ entry after later, parseEntry input version = some (entry, after) ∧
        parseEntries version count after = some (later, rest) ∧ entry :: later = entries := by
  simp only [parseEntries, parseTimes]
  cases parseEntry input version with
  | none => simp
  | some next => simp [Prod.ext_iff, and_comm, and_assoc]

theorem decodeEntries_eq_ok :
    decodeEntries version count input = .ok (entries, rest) ↔
      parseEntries version count input = some (entries, rest) := by
  induction count generalizing input entries with
  | zero => simp [decodeEntries, parseEntries, parseTimes]
  | succ count ih =>
    rw [parseEntries_succ_eq_some]
    constructor
    · intro h
      obtain ⟨⟨entry, after⟩, hentry, h⟩ := Except.bind_eq_ok.mp h
      obtain ⟨⟨later, rest⟩, hlater, h⟩ := Except.bind_eq_ok.mp h
      cases h
      exact ⟨entry, after, later, decodeEntry_eq_ok.mp hentry, ih.mp hlater, rfl⟩
    · rintro ⟨entry, after, later, hentry, hlater, rfl⟩
      exact Except.bind_eq_ok.mpr ⟨_, decodeEntry_eq_ok.mpr hentry,
        Except.bind_eq_ok.mpr ⟨_, ih.mpr hlater, rfl⟩⟩

/-- The collecting visitor ends with what it had and the entries of the stream. -/
theorem visitEntries_collect_eq_ok {seen out : List StoredEntry} :
    visitEntries collect version count input seen = .ok (out, rest) ↔
      ∃ entries, parseEntries version count input = some (entries, rest) ∧
        out = seen ++ entries := by
  induction count generalizing input seen with
  | zero =>
    simp only [visitEntries, parseEntries, parseTimes, Except.ok.injEq, Option.some.injEq,
      Prod.mk.injEq]
    constructor
    · rintro ⟨rfl, rfl⟩
      exact ⟨[], ⟨rfl, rfl⟩, by simp⟩
    · rintro ⟨entries, ⟨rfl, rfl⟩, rfl⟩
      simp
  | succ count ih =>
    simp only [parseEntries_succ_eq_some]
    constructor
    · intro h
      obtain ⟨⟨entry, after⟩, hentry, h⟩ := Except.bind_eq_ok.mp h
      obtain ⟨state, hstate, h⟩ := Except.bind_eq_ok.mp h
      cases hstate
      obtain ⟨later, hlater, rfl⟩ := ih.mp h
      exact ⟨_, ⟨entry, after, later, decodeStreamEntry_eq_ok.mp hentry, hlater, rfl⟩, by simp⟩
    · rintro ⟨_, ⟨entry, after, later, hentry, hlater, rfl⟩, rfl⟩
      exact Except.bind_eq_ok.mpr ⟨_, decodeStreamEntry_eq_ok.mpr hentry,
        Except.bind_eq_ok.mpr ⟨_, rfl, ih.mpr ⟨later, hlater, by simp⟩⟩⟩

theorem parseEntries_eq_some :
    parseEntries version count input = some (entries, rest) ↔
      entries.length = count ∧ (∀ entry ∈ entries, Representable version entry) ∧
        input = entries.flatMap (entryBytes version) ++ rest :=
  parseTimes_eq_some parseEntry_eq_some

theorem length_entryBytes_ge (version : ℕ) (entry : StoredEntry) :
    snapshotEntryHeaderV1Len ≤ (entryBytes version entry).length := by
  rw [entryBytes, length_append, length_entryFields, entryHeaderLen]
  split_ifs
  · omega
  · rw [snapshotEntryHeaderV1Len, snapshotEntryHeaderLen]
    omega

/-- The number of entries in a body is at most what the size check allows. -/
theorem count_mul_le (version : ℕ) (entries : List StoredEntry) :
    entries.length * snapshotEntryHeaderV1Len ≤ (entries.flatMap (entryBytes version)).length := by
  induction entries with
  | nil => simp
  | cons entry entries ih =>
    have hentry := length_entryBytes_ge version entry
    rw [length_cons, flatMap_cons, length_append, Nat.succ_mul]
    omega

end ShardKv.SnapshotCodec
