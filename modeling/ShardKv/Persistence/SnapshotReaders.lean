import ShardKv.Persistence.SnapshotGrammar

/-!
# What the two snapshot readers accept

The reader of streams accepts exactly the encodings of snapshots, the reader of
bodies in memory also accepts anything after them. So the two differ on
snapshots with something appended and nowhere else.
-/
namespace ShardKv.SnapshotCodec

open List
variable {raw : Bytes} {version timestampMs : ℕ} {entries : List StoredEntry}

/-- The header, with the version and the number of entries as they are stored. -/
def headerBytes (version timestampMs count : ℕ) : Bytes :=
  snapshotMagic ++ (leBytes 4 version ++ (leBytes 8 timestampMs ++ leBytes 8 count))

theorem length_headerBytes (version timestampMs count : ℕ) :
    (headerBytes version timestampMs count).length = snapshotHeaderLen := by
  simp [headerBytes, snapshotMagic, snapshotHeaderLen]

variable (version timestampMs entries) in
theorem snapshotBytes_eq : snapshotBytes version timestampMs entries =
      headerBytes version timestampMs entries.length ++ entries.flatMap (entryBytes version) := by
  simp [snapshotBytes, headerBytes]

theorem headerBytes_of_magic (hlen : snapshotHeaderLen ≤ raw.length)
    (hmagic : snapshotMagic <+: raw) :
    raw = headerBytes (leValue (byteSlice raw 8 4)) (leValue (byteSlice raw 12 8))
      (leValue (byteSlice raw 20 8)) ++ raw.drop snapshotHeaderLen := by
  have hsize : snapshotHeaderLen = 20 + 8 := rfl
  have hstart : snapshotMagic ++ raw.drop 8 = raw := by
    obtain ⟨rest, rfl⟩ := hmagic
    exact congrArg _ (drop_left' rfl)
  rw [headerBytes, leBytes_leValue_byteSlice (by omega), leBytes_leValue_byteSlice (by omega),
    leBytes_leValue_byteSlice (by omega)]
  simp only [append_assoc]
  rw [hsize, byteSlice_append_drop _ 20 8, byteSlice_append_drop _ 12 8,
    byteSlice_append_drop _ 8 4, hstart]

theorem leValue_byteSlice_field (width : ℕ) {n : ℕ} (before after : Bytes) (h : n < 256 ^ width) :
    leValue (byteSlice (before ++ (leBytes width n ++ after)) before.length width) = n := by
  rw [byteSlice_append_right _ le_rfl, Nat.sub_self, byteSlice_append_zero _ (length_leBytes _ _),
    leValue_leBytes_of_lt h]

theorem version_lt (h : IsSnapshot version timestampMs entries) : version < 2 ^ 32 := by
  rcases h.version_known with rfl | rfl <;> decide

/-- What both readers find in front of the entries of a snapshot. -/
structure Headed (raw : Bytes) (version timestampMs count : ℕ) (body : Bytes) : Prop where
  length_le : snapshotHeaderLen ≤ raw.length
  magic : snapshotMagic <+: raw.take snapshotHeaderLen
  version_eq : leValue (byteSlice raw 8 4) = version
  timestamp_eq : leValue (byteSlice raw 12 8) = timestampMs
  count_eq : leValue (byteSlice raw 20 8) = count
  drop_eq : raw.drop snapshotHeaderLen = body

theorem headed (h : IsSnapshot version timestampMs entries) (body : Bytes) :
    Headed (headerBytes version timestampMs entries.length ++ body) version timestampMs
      entries.length body := by
  have hlen := length_headerBytes version timestampMs entries.length
  have hmagic : snapshotMagic.length = 8 := rfl
  have hversion := leValue_byteSlice_field 4 snapshotMagic
    (leBytes 8 timestampMs ++ (leBytes 8 entries.length ++ body)) (version_lt h)
  have htime := leValue_byteSlice_field 8 (snapshotMagic ++ leBytes 4 version)
    (leBytes 8 entries.length ++ body) h.timestamp_lt
  have hcount := leValue_byteSlice_field 8
    (snapshotMagic ++ (leBytes 4 version ++ leBytes 8 timestampMs)) body h.count_lt
  exact {
    length_le := by rw [length_append]; omega
    magic := by
      rw [← hlen, take_left, headerBytes]
      exact prefix_append _ _
    version_eq := by simpa [headerBytes, hmagic] using hversion
    timestamp_eq := by simpa [headerBytes, hmagic] using htime
    count_eq := by simpa [headerBytes, hmagic] using hcount
    drop_eq := by rw [← hlen, drop_left] }

/-- What both readers get to before the entries. -/
structure HeaderOk (raw : Bytes) (version timestampMs count : ℕ) (body : Bytes) : Prop where
  split : raw = headerBytes version timestampMs count ++ body
  version_known : version = snapshotVersionV1 ∨ version = snapshotVersion
  timestamp_lt : timestampMs < 2 ^ 64
  count_lt : count < 2 ^ 64

theorem headerOk_of_magic (hlen : snapshotHeaderLen ≤ raw.length) (hmagic : snapshotMagic <+: raw)
    (hversion : leValue (byteSlice raw 8 4) = snapshotVersionV1 ∨
      leValue (byteSlice raw 8 4) = snapshotVersion) :
    HeaderOk raw (leValue (byteSlice raw 8 4)) (leValue (byteSlice raw 12 8))
      (leValue (byteSlice raw 20 8)) (raw.drop snapshotHeaderLen) := by
  have hsize : snapshotHeaderLen = 20 + 8 := rfl
  exact ⟨headerBytes_of_magic hlen hmagic, hversion, leValue_byteSlice_lt (by omega),
    leValue_byteSlice_lt (by omega)⟩

theorem decodeBody_eq (raw : Bytes) (version : ℕ) (hlen : snapshotHeaderLen ≤ raw.length) :
    decodeBody (raw.drop 12) version =
      if (raw.drop snapshotHeaderLen).length / snapshotEntryHeaderV1Len <
          leValue (byteSlice raw 20 8) then
        .error "snapshot entry count exceeds the remaining body"
      else (decodeEntries version (leValue (byteSlice raw 20 8))
        (raw.drop snapshotHeaderLen)).map fun out => (leValue (byteSlice raw 12 8), out.1) := by
  have hsize : snapshotHeaderLen = 28 := rfl
  have htime : ¬(raw.drop 12).length < 8 := by
    rw [length_drop]
    omega
  have hcount : ¬((raw.drop 12).drop 8).length < 8 := by
    rw [length_drop, length_drop]
    omega
  rw [decodeBody, readU64_eq, if_neg htime]
  simp only [bind, Except.bind]
  rw [readU64_eq, if_neg hcount]
  simp only [drop_drop, byteSlice, hsize, Nat.reduceAdd]
  split_ifs
  · rfl
  · cases decodeEntries version (leValue ((raw.drop 20).take 8)) (raw.drop 28) <;> rfl

/-- The reader in memory accepts snapshots, with anything after them. -/
theorem decode_eq_ok : decode raw = .ok (timestampMs, entries) ↔
      ∃ version rest, IsSnapshot version timestampMs entries ∧
        raw = snapshotBytes version timestampMs entries ++ rest := by
  have hsize : snapshotHeaderLen = 28 := rfl
  have hread : ∀ {bytes : Bytes}, snapshotHeaderLen ≤ bytes.length →
      readU32 (bytes.drop snapshotMagic.length) "snapshot version" =
        .ok (leValue (byteSlice bytes 8 4), bytes.drop 12) := by
    intro bytes hlen
    have hlong : ¬(bytes.drop snapshotMagic.length).length < 4 := by
      simp only [snapshotMagic, length_drop, length_cons, length_nil]
      omega
    rw [readU32_eq, if_neg hlong, drop_drop]
    rfl
  constructor
  · intro h
    simp only [decode] at h
    split_ifs at h with hshort hmagic
    have hlen : snapshotHeaderLen ≤ raw.length := by omega
    simp only [decodeValidated, hread hlen, bind, Except.bind] at h
    split_ifs at h with hversion
    rw [decodeBody_eq raw _ hlen] at h
    split_ifs at h
    obtain ⟨⟨parsed, rest⟩, hparsed, hout⟩ := Except.map_eq_ok.mp h
    cases hout
    obtain ⟨hcount, hentries, hbody⟩ := parseEntries_eq_some.mp (decodeEntries_eq_ok.mp hparsed)
    have hheader := headerOk_of_magic hlen hmagic hversion
    refine ⟨_, rest, ⟨hversion, hheader.timestamp_lt, hcount ▸ hheader.count_lt, hentries⟩, ?_⟩
    rw [snapshotBytes_eq, append_assoc, ← hbody, hcount]
    exact hheader.split
  · rintro ⟨version, rest, hsnapshot, rfl⟩
    rw [snapshotBytes_eq, append_assoc]
    set body := entries.flatMap (entryBytes version) ++ rest with hbody
    have hheaded := headed hsnapshot body
    set raw := headerBytes version timestampMs entries.length ++ body
    have hlen := hheaded.length_le
    have hmagic : snapshotMagic <+: raw := hheaded.magic.trans (List.take_prefix _ _)
    have hparse :=
      decodeEntries_eq_ok.mpr (parseEntries_eq_some.mpr ⟨rfl, hsnapshot.representable, hbody⟩)
    have hcount : ¬body.length / snapshotEntryHeaderV1Len < entries.length := by
      have hmul := count_mul_le version entries
      have hfits : entries.length ≤ body.length / snapshotEntryHeaderV1Len := by
        rw [Nat.le_div_iff_mul_le (by decide), hbody, length_append]
        omega
      omega
    rw [decode, if_neg (by omega), if_neg (not_not.mpr hmagic)]
    simp only [decodeValidated, hread hlen, bind, Except.bind, hheaded.version_eq]
    rw [if_pos hsnapshot.version_known, decodeBody_eq raw _ hlen, hheaded.drop_eq,
      hheaded.count_eq, hheaded.timestamp_eq, if_neg hcount, hparse]
    rfl

/-- The reader of streams accepts snapshots only. -/
theorem decodeStreamEntries_eq_ok : decodeStreamEntries raw = .ok (timestampMs, entries) ↔
      ∃ version, IsSnapshot version timestampMs entries ∧
        raw = snapshotBytes version timestampMs entries := by
  have hsize : snapshotHeaderLen = 28 := rfl
  constructor
  · intro h
    obtain ⟨⟨header, body⟩, hheader, h⟩ := Except.bind_eq_ok.mp h
    obtain ⟨hlen, rfl, rfl⟩ := streamExact_eq_ok.mp hheader
    simp only at h
    split_ifs at h with hmagic hversion
    rw [byteSlice_take hlen (by omega)] at hversion
    rw [byteSlice_take hlen (by omega), byteSlice_take hlen (by omega),
      byteSlice_take hlen (by omega)] at h
    obtain ⟨⟨state, rest⟩, hvisit, h⟩ := Except.bind_eq_ok.mp h
    simp only at h
    split_ifs at h with hrest
    cases h
    obtain ⟨parsed, hparsed, rfl⟩ := visitEntries_collect_eq_ok.mp hvisit
    obtain ⟨hcount, hentries, hbody⟩ := parseEntries_eq_some.mp hparsed
    have hok := headerOk_of_magic hlen (hmagic.trans (List.take_prefix _ _)) hversion
    refine ⟨_, ⟨hversion, hok.timestamp_lt, ?_, hentries⟩, ?_⟩
    · rw [hcount]
      exact hok.count_lt
    · rw [not_not.mp hrest, append_nil] at hbody
      rw [snapshotBytes_eq, ← hbody, hcount]
      exact hok.split
  · rintro ⟨version, hsnapshot, rfl⟩
    rw [snapshotBytes_eq]
    have hheaded := headed hsnapshot (entries.flatMap (entryBytes version))
    have hlen := hheaded.length_le
    rw [decodeStreamEntries, decodeStream]
    refine Except.bind_eq_ok.mpr ⟨_, streamExact_eq_ok.mpr ⟨hlen, rfl, rfl⟩, ?_⟩
    simp only
    rw [if_neg (not_not.mpr hheaded.magic), byteSlice_take hlen (by omega),
      byteSlice_take hlen (by omega), byteSlice_take hlen (by omega), hheaded.version_eq,
      if_pos hsnapshot.version_known, hheaded.drop_eq, hheaded.count_eq, hheaded.timestamp_eq]
    refine Except.bind_eq_ok.mpr ⟨(entries, []), ?_, rfl⟩
    refine visitEntries_collect_eq_ok.mpr ⟨entries, parseEntries_eq_some.mpr
      ⟨rfl, hsnapshot.representable, ?_⟩, rfl⟩
    rw [append_nil]

section Visitor

variable {τ : Type} (visit : τ → StoredEntry → Except String τ)

theorem visitEntries_of_collect {count : ℕ} {input rest : Bytes} {seen : List StoredEntry}
    (state : τ) (h : visitEntries collect version count input seen = .ok (seen ++ entries, rest)) :
    visitEntries visit version count input state =
      (entries.foldlM visit state).map fun state => (state, rest) := by
  obtain ⟨parsed, hparsed, hout⟩ := visitEntries_collect_eq_ok.mp h
  cases append_cancel_left hout
  clear h hout
  induction count generalizing input state entries with
  | zero =>
    obtain ⟨rfl, rfl⟩ := hparsed
    rfl
  | succ count ih =>
    simp only [parseEntries, parseTimes] at hparsed
    split at hparsed
    · cases hparsed
    · rename_i entry after hentry
      obtain ⟨⟨later, last⟩, hlater, hout⟩ := Option.map_eq_some_iff.mp hparsed
      cases hout
      rw [visitEntries, decodeStreamEntry_eq_ok.mpr hentry, foldlM_cons]
      show (visit state entry >>= fun state => visitEntries visit version count after state) = _
      cases hvisit : visit state entry with
      | error error => rfl
      | ok next => exact ih next hlater

/-- A visitor sees the entries that the reader of streams returns. -/
theorem decodeStream_eq (state : τ) (h : decodeStreamEntries raw = .ok (timestampMs, entries)) :
    decodeStream visit raw state =
      (entries.foldlM visit state).map fun state => (timestampMs, state) := by
  obtain ⟨⟨header, body⟩, hheader, h⟩ := Except.bind_eq_ok.mp h
  simp only at h
  split_ifs at h with hmagic hversion
  obtain ⟨⟨seen, rest⟩, hvisit, h⟩ := Except.bind_eq_ok.mp h
  simp only at h
  split_ifs at h with hrest
  cases h
  rw [decodeStream, hheader]
  show (if _ then _ else if _ then visitBody visit _ _ _ _ _ else _) = _
  rw [if_neg (not_not.mpr hmagic), if_pos hversion, visitBody,
    visitEntries_of_collect visit state hvisit]
  cases entries.foldlM visit state with
  | error error => rfl
  | ok out => exact if_neg hrest

section

variable {P : τ → Prop}
    (hvisit : ∀ state entry next, P state → visit state entry = .ok next → P next)
include hvisit

theorem visitEntries_invariant {count : ℕ} {input rest : Bytes} {state out : τ} (hstate : P state)
    (h : visitEntries visit version count input state = .ok (out, rest)) : P out := by
  induction count generalizing input state with
  | zero =>
    cases h
    exact hstate
  | succ count ih =>
    obtain ⟨⟨entry, after⟩, -, h⟩ := Except.bind_eq_ok.mp h
    obtain ⟨next, hnext, h⟩ := Except.bind_eq_ok.mp h
    exact ih (hvisit state entry next hstate hnext) h

/-- What every visit keeps also holds at the end of the stream. -/
theorem decodeStream_invariant {state out : τ}
    (hstate : P state) (h : decodeStream visit raw state = .ok (timestampMs, out)) : P out := by
  obtain ⟨⟨header, body⟩, -, h⟩ := Except.bind_eq_ok.mp h
  simp only at h
  split_ifs at h
  obtain ⟨⟨last, rest⟩, hlast, h⟩ := Except.bind_eq_ok.mp h
  simp only at h
  split_ifs at h
  cases h
  exact visitEntries_invariant visit hvisit hstate hlast

end
end Visitor

/-- Both readers fail, or both succeed with the same timestamp and entries. -/
def Agree (raw : Bytes) : Prop :=
  (∃ out, decode raw = .ok out ∧ decodeStreamEntries raw = .ok out) ∨
    ((∃ error, decode raw = .error error) ∧ ∃ error, decodeStreamEntries raw = .error error)

/-- A snapshot with something after it. -/
def Extended (raw : Bytes) : Prop :=
  ∃ version timestampMs entries rest, IsSnapshot version timestampMs entries ∧ rest ≠ [] ∧
    raw = snapshotBytes version timestampMs entries ++ rest

/-- No snapshot is a proper initial part of another. -/
theorem snapshotBytes_append_inj {version' timestampMs' : ℕ} {entries' : List StoredEntry}
    {rest rest' : Bytes} (h : IsSnapshot version timestampMs entries)
    (h' : IsSnapshot version' timestampMs' entries')
    (heq : snapshotBytes version timestampMs entries ++ rest =
      snapshotBytes version' timestampMs' entries' ++ rest') :
    rest = rest' := by
  rw [snapshotBytes_eq, snapshotBytes_eq, append_assoc, append_assoc] at heq
  have hheaded := headed h (entries.flatMap (entryBytes version) ++ rest)
  rw [heq] at hheaded
  have hheaded' := headed h' (entries'.flatMap (entryBytes version') ++ rest')
  cases hheaded.version_eq.symm.trans hheaded'.version_eq
  have hcount := hheaded.count_eq.symm.trans hheaded'.count_eq
  have hbody := append_inj_right heq (by rw [length_headerBytes, length_headerBytes])
  have hparse : parseEntries version entries.length
      (entries.flatMap (entryBytes version) ++ rest) = some (entries, rest) :=
    parseEntries_eq_some.mpr ⟨rfl, h.representable, rfl⟩
  have hparse' := parseEntries_eq_some.mpr ⟨hcount.symm, h'.representable, hbody⟩
  rw [hparse] at hparse'
  cases hparse'
  rfl

theorem agree_iff (raw : Bytes) : Agree raw ↔ ¬Extended raw := by
  constructor
  · rintro hagree ⟨version, timestampMs, entries, rest, hsnapshot, hrest, rfl⟩
    have hdecode := decode_eq_ok.mpr ⟨version, rest, hsnapshot, rfl⟩
    rcases hagree with ⟨⟨time, out⟩, _, hstream⟩ | ⟨⟨error, herror⟩, _⟩
    · -- the stream would be a snapshot without anything after it
      obtain ⟨version', hsnapshot', heq⟩ := decodeStreamEntries_eq_ok.mp hstream
      rw [← append_nil (snapshotBytes version' time out)] at heq
      exact hrest (snapshotBytes_append_inj hsnapshot hsnapshot' heq)
    · rw [hdecode] at herror
      cases herror
  · intro hnot
    cases hdecode : decode raw with
    | ok out =>
      obtain ⟨timestampMs, entries⟩ := out
      obtain ⟨version, rest, hsnapshot, hraw⟩ := decode_eq_ok.mp hdecode
      have hrest : rest = [] := by
        by_contra hne
        exact hnot ⟨version, timestampMs, entries, rest, hsnapshot, hne, hraw⟩
      refine .inl ⟨_, hdecode, decodeStreamEntries_eq_ok.mpr ⟨version, hsnapshot, ?_⟩⟩
      rw [hraw, hrest, append_nil]
    | error error =>
      refine .inr ⟨⟨error, hdecode⟩, ?_⟩
      cases hstream : decodeStreamEntries raw with
      | error error => exact ⟨error, rfl⟩
      | ok out =>
        obtain ⟨timestampMs, entries⟩ := out
        obtain ⟨version, hsnapshot, hraw⟩ := decodeStreamEntries_eq_ok.mp hstream
        have hok : decode raw = .ok (timestampMs, entries) :=
          decode_eq_ok.mpr ⟨version, [], hsnapshot, by rw [hraw, append_nil]⟩
        rw [hok] at hdecode
        cases hdecode

/-- What is passed to the encoder: machine numbers, and no deadline that means none. -/
structure SnapshotContents where
  entries : List StoredEntry
  timestampMs : ℕ
  timestamp_lt : timestampMs < 2 ^ 64
  count_lt : entries.length < 2 ^ 64
  deadline_lt : ∀ entry ∈ entries, ∀ deadline ∈ entry.expireAtMs, deadline < expireNone

/-- All lengths of an entry can be written. -/
def Writable (entry : StoredEntry) : Prop :=
  entry.key.length < 2 ^ 32 ∧ entry.value.length < 2 ^ 32 ∧
    ∀ token ∈ entry.governance, token.length < 2 ^ 32

theorem encodedLen_eq_ok {len out : ℕ} {message : String} :
    encodedLen len message = .ok out ↔ len < 2 ^ 32 ∧ len = out := by
  rw [encodedLen]
  split_ifs with h
  · simp only [Except.ok.injEq]
    exact (and_iff_right h).symm
  · simp only [false_iff, not_and]
    exact fun hlt => absurd hlt h

theorem encodedGovernanceLen_eq_ok {governance : Option Bytes} {out : ℕ} :
    encodedGovernanceLen governance = .ok out ↔
      (∀ token ∈ governance, token.length < 2 ^ 32) ∧ storedGovernanceLen governance = out := by
  cases governance with
  | none => simp [encodedGovernanceLen, storedGovernanceLen]
  | some token => simp [encodedGovernanceLen, storedGovernanceLen, encodedLen_eq_ok]

theorem writeEntry_eq_ok {entry : StoredEntry} {bytes : Bytes} :
    writeEntry entry = .ok bytes ↔ Writable entry ∧ entryBytes snapshotVersion entry = bytes := by
  have hbytes : entryBytes snapshotVersion entry =
      leBytes 4 entry.key.length ++ (leBytes 4 entry.value.length ++
        (leBytes 4 (storedGovernanceLen entry.governance) ++
          (leBytes 8 (entry.expireAtMs.getD expireNone) ++ (entry.key ++ (entry.value ++
            entry.governance.getD []))))) := by
    have hversion : snapshotVersion ≠ snapshotVersionV1 := by decide
    simp [entryBytes, entryFields, governanceField, hversion]
  constructor
  · intro h
    obtain ⟨keyLen, hkey, h⟩ := Except.bind_eq_ok.mp h
    obtain ⟨valueLen, hvalue, h⟩ := Except.bind_eq_ok.mp h
    obtain ⟨governanceLen, hgovernance, h⟩ := Except.bind_eq_ok.mp h
    cases h
    obtain ⟨hkeyLt, rfl⟩ := encodedLen_eq_ok.mp hkey
    obtain ⟨hvalueLt, rfl⟩ := encodedLen_eq_ok.mp hvalue
    obtain ⟨htoken, rfl⟩ := encodedGovernanceLen_eq_ok.mp hgovernance
    exact ⟨⟨hkeyLt, hvalueLt, htoken⟩, hbytes⟩
  · rintro ⟨⟨hkey, hvalue, htoken⟩, rfl⟩
    rw [hbytes]
    exact Except.bind_eq_ok.mpr ⟨_, encodedLen_eq_ok.mpr ⟨hkey, rfl⟩,
      Except.bind_eq_ok.mpr ⟨_, encodedLen_eq_ok.mpr ⟨hvalue, rfl⟩,
        Except.bind_eq_ok.mpr ⟨_, encodedGovernanceLen_eq_ok.mpr ⟨htoken, rfl⟩, rfl⟩⟩⟩

theorem writeEntries_eq_ok {bytes : Bytes} : writeEntries entries = .ok bytes ↔
      (∀ entry ∈ entries, Writable entry) ∧
        entries.flatMap (entryBytes snapshotVersion) = bytes := by
  induction entries generalizing bytes with
  | nil => simp [writeEntries]
  | cons entry entries ih =>
    rw [forall_mem_cons, flatMap_cons]
    constructor
    · intro h
      obtain ⟨first, hfirst, h⟩ := Except.bind_eq_ok.mp h
      obtain ⟨later, hlater, h⟩ := Except.bind_eq_ok.mp h
      cases h
      obtain ⟨hentry, rfl⟩ := writeEntry_eq_ok.mp hfirst
      obtain ⟨hentries, rfl⟩ := ih.mp hlater
      exact ⟨⟨hentry, hentries⟩, rfl⟩
    · rintro ⟨⟨hentry, hentries⟩, rfl⟩
      exact Except.bind_eq_ok.mpr ⟨_, writeEntry_eq_ok.mpr ⟨hentry, rfl⟩,
        Except.bind_eq_ok.mpr ⟨_, ih.mpr ⟨hentries, rfl⟩, rfl⟩⟩

section Encode

variable (hashKey : Bytes → ℕ)

theorem mem_sortByHash {entry : StoredEntry} :
    entry ∈ sortByHash hashKey entries ↔ entry ∈ entries :=
  mem_mergeSort

theorem encode_eq_ok {body : Bytes} : encode hashKey entries timestampMs = .ok body ↔
      (∀ entry ∈ entries, Writable entry) ∧
        snapshotBytes snapshotVersion timestampMs (sortByHash hashKey entries) = body := by
  have hall : (∀ entry ∈ sortByHash hashKey entries, Writable entry) ↔
      ∀ entry ∈ entries, Writable entry := by
    simp only [mem_sortByHash]
  rw [snapshotBytes_eq, ← hall]
  constructor
  · intro h
    obtain ⟨bytes, hbytes, h⟩ := Except.bind_eq_ok.mp h
    cases h
    obtain ⟨hentries, rfl⟩ := writeEntries_eq_ok.mp hbytes
    exact ⟨hentries, rfl⟩
  · rintro ⟨hentries, rfl⟩
    exact Except.bind_eq_ok.mpr ⟨_, writeEntries_eq_ok.mpr ⟨hentries, rfl⟩, rfl⟩

variable (contents : SnapshotContents)

/-- Whatever is written is read back by both readers, in the order it was written. -/
def ReadBack : Prop :=
  ∀ body, encode hashKey contents.entries contents.timestampMs = .ok body →
    decode body = .ok (contents.timestampMs, sortByHash hashKey contents.entries) ∧
      decodeStreamEntries body = .ok (contents.timestampMs, sortByHash hashKey contents.entries)

/-- The length of a token is not the number that stands for no token. -/
def TokensDistinct (entries : List StoredEntry) : Prop :=
  ∀ entry ∈ entries, ∀ token ∈ entry.governance, token.length ≠ governanceNone

theorem readBack_iff : ReadBack hashKey contents ↔
      (∃ entry ∈ contents.entries, ¬Writable entry) ∨ TokensDistinct contents.entries := by
  constructor
  · intro hread
    by_cases hwritable : ∀ entry ∈ contents.entries, Writable entry
    · right
      intro entry hentry token htoken
      obtain ⟨hdecode, _⟩ := hread _ ((encode_eq_ok hashKey).mpr ⟨hwritable, rfl⟩)
      obtain ⟨version, _, hsnapshot, _⟩ := decode_eq_ok.mp hdecode
      have hlt := (hsnapshot.representable entry ((mem_sortByHash hashKey).mpr hentry)).token_lt
        token htoken
      omega
    · left
      push Not at hwritable
      exact hwritable
  · rintro (⟨entry, hentry, hlarge⟩ | hdistinct) body hbody
    · exact absurd ((encode_eq_ok hashKey).mp hbody |>.1 entry hentry) hlarge
    · obtain ⟨hwritable, rfl⟩ := (encode_eq_ok hashKey).mp hbody
      have hsnapshot : IsSnapshot snapshotVersion contents.timestampMs
          (sortByHash hashKey contents.entries) := by
        refine ⟨.inr rfl, contents.timestamp_lt, ?_, ?_⟩
        · rw [sortByHash, length_mergeSort]
          exact contents.count_lt
        · intro entry hmem
          have hentry := (mem_sortByHash hashKey).mp hmem
          obtain ⟨hkey, hvalue, htoken⟩ := hwritable entry hentry
          refine ⟨hkey, hvalue, contents.deadline_lt entry hentry, ?_, fun h => absurd h (by decide)⟩
          intro token hmem
          have hlt := htoken token hmem
          have hne := hdistinct entry hentry token hmem
          rw [governanceNone] at hne ⊢
          omega
      exact ⟨decode_eq_ok.mpr ⟨_, [], hsnapshot, by rw [append_nil]⟩,
        decodeStreamEntries_eq_ok.mpr ⟨_, hsnapshot, rfl⟩⟩

/-- The readers agree on a byte string unless it is a snapshot with something after it, and
they read back what was written unless a token has the length that stands for none. -/
theorem snapshotReaders_agree_iff : (∀ raw, Agree raw ↔ ¬Extended raw) ∧
      ∀ contents, ReadBack hashKey contents ↔
        (∃ entry ∈ contents.entries, ¬Writable entry) ∨ TokensDistinct contents.entries :=
  ⟨agree_iff, readBack_iff hashKey⟩

end Encode

/-- One byte after an empty snapshot: one reader ignores it, the other one fails. -/
theorem trailingByte_disagree : decode (snapshotBytes snapshotVersion 7 [] ++ [0]) = .ok (7, []) ∧
      decodeStreamEntries (snapshotBytes snapshotVersion 7 [] ++ [0]) =
        .error "snapshot has trailing bytes" := by
  constructor <;> rfl

end ShardKv.SnapshotCodec
