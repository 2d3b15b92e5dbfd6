import ShardKv.Overflow.OverflowStore
import ShardKv.Persistence.SnapshotReaders

/-!
# Snapshots of the key-value overflow store

A snapshot visits the primary, then the keys whose values are only on a node, and
streams every live entry into one file. The clock stands still meanwhile, and
nobody else uses the store.
-/
namespace ShardKv

open OverflowValue List

/-- The part of a value that ordinary reads may see. -/
def OverflowValue.visible {β : Type} (written : OverflowValue β) : Option β :=
  if written.governance.isSome then none else some written.value

namespace OverflowKey

variable {ι β : Type} (s : OverflowKey ι β) (nowMs : ℕ)

def liveResident : Option (OverflowValue β) := s.resident.bind fun entry =>
    if entry.written.isExpired nowMs then none else some entry.written

/-- The value on the node, under the deadline of the metadata. -/
def liveRemote : Option (OverflowValue β) := s.remote.bind fun remote =>
    if isExpiredAt remote.expireAtMs nowMs then none
    else (s.nodeGet nowMs).map fun written => { written with expireAtMs := remote.expireAtMs }

/-- The value, governance and deadline of the key; the primary has the first say. -/
def held : Option (OverflowValue β) := (s.liveResident nowMs).or (s.liveRemote nowMs)

variable [DecidableEq ι]

/-- A `get` with `fetch_on_miss` from its beginning to its end, while nobody else acts. -/
def get (forgetRemoteMisses admitted : Bool) : Option β :=
  let s := s.readBegin nowMs true 0
  let s := (s.readExpect 0).readCheck nowMs 0
  let s := (s.readFetch nowMs 0 true).readEnd nowMs forgetRemoteMisses 0 admitted
  match s.readers 0 with
  | .finished _ _ result => result
  | _ => none

omit [DecidableEq ι]

/-- Nothing is under way for the key, and its metadata describes what the node holds, which is
also what the primary holds if it still has the key. -/
structure Settled : Prop where
  idle : s.client = .idle
  jobs : s.jobs = []
  completions : s.completions = []
  pending : s.pending = none
  mirrored : ∀ remote, s.remote = some remote → ∃ written, s.node = some written ∧
    written.expireAtMs = remote.expireAtMs ∧ remote.isProtected = written.governance.isSome ∧
      ∀ entry, s.resident = some entry → entry.written = written

theorem settled_empty : Settled ({} : OverflowKey ι β) := ⟨rfl, rfl, rfl, rfl, fun _ h => nomatch h⟩

variable {s nowMs}

theorem innerGet_eq : s.innerGet nowMs = (s.liveResident nowMs).bind visible := by
  rw [innerGet, liveResident]
  cases s.resident with
  | none => rfl
  | some entry =>
    by_cases hexpired : entry.written.isExpired nowMs
    · simp [hexpired]
    · simp [hexpired, visible]

theorem Settled.liveRemote_eq (h : s.Settled) {remote : RemoteKeyMeta ι}
    (hremote : s.remote = some remote) : s.liveRemote nowMs = s.nodeGet nowMs := by
  obtain ⟨written, hnode, hdeadline, -, -⟩ := h.mirrored remote hremote
  rw [liveRemote, nodeGet, hremote, hnode, Option.bind_some, Option.bind_some, isExpired, hdeadline]
  split_ifs with hexpired
  · rfl
  · rw [← hdeadline]
    rfl

section Reader

variable (s) (phase : FaultIn ι β)

@[simp] theorem setReader_readers_self : (s.setReader 0 phase).readers 0 = phase := by
  simp [setReader]

@[simp] theorem setReader_innerGet : (s.setReader 0 phase).innerGet nowMs = s.innerGet nowMs := rfl

@[simp] theorem setReader_nodeGet : (s.setReader 0 phase).nodeGet nowMs = s.nodeGet nowMs := rfl

@[simp] theorem setReader_remote : (s.setReader 0 phase).remote = s.remote := rfl

@[simp] theorem setReader_gateFree : (s.setReader 0 phase).gateFree = s.gateFree := rfl

end Reader

section Get

variable [DecidableEq ι] (forgetRemoteMisses admitted : Bool)

theorem get_of_untracked (h : s.innerGet nowMs = none) (hremote : s.remote = none) :
    s.get nowMs forgetRemoteMisses admitted = none := by
  simp [get, readBegin, readExpect, readCheck, readFetch, readEnd, h, hremote]

section

variable (h : s.innerGet nowMs = none) {remote : RemoteKeyMeta ι} (hremote : s.remote = some remote)
include h hremote

theorem get_of_protected (hprotected : remote.isProtected = true) :
    s.get nowMs forgetRemoteMisses admitted = none := by
  simp [get, readBegin, readExpect, readCheck, readFetch, readEnd, h, hremote, hprotected]

/-- A key without a visible value in the primary is asked for on the node. -/
theorem get_of_fetched (hprotected : remote.isProtected = false) (hidle : s.client = .idle) :
    s.get nowMs forgetRemoteMisses admitted = (s.nodeGet nowMs).bind visible := by
  have hfree : s.gateFree = true := by rw [gateFree, hidle]
  cases hfetch : s.nodeGet nowMs with
  | none =>
    simp [get, readBegin, readExpect, readCheck, readFetch, readEnd, h, hremote, hprotected,
      hfetch, hfree]
  | some written =>
    cases hgovernance : written.governance <;>
      simp [get, readBegin, readExpect, readCheck, readFetch, readEnd, h, hremote, hprotected,
        hfetch, hfree, hgovernance, visible]

end

/-- In a settled store ordinary reads see exactly the values without governance. -/
theorem Settled.get_eq (h : s.Settled) :
    s.get nowMs forgetRemoteMisses admitted = (s.held nowMs).bind visible := by
  have hinner : s.innerGet nowMs = (s.liveResident nowMs).bind visible := innerGet_eq
  rw [held]
  cases hlive : s.liveResident nowMs with
  | some written =>
    rw [hlive, Option.bind_some] at hinner
    rw [Option.some_or, Option.bind_some]
    cases hvisible : written.visible with
    | some value =>
      simp [get, readBegin, readExpect, readCheck, readFetch, readEnd, hinner.trans hvisible]
    | none =>
      cases hremote : s.remote with
      | none => exact get_of_untracked _ _ (hinner.trans hvisible) hremote
      | some remote =>
        obtain ⟨stored, -, -, hprotected, hsame⟩ := h.mirrored remote hremote
        obtain ⟨entry, hentry, hwritten⟩ := Option.bind_eq_some_iff.mp hlive
        split_ifs at hwritten
        cases hwritten
        refine get_of_protected _ _ (hinner.trans hvisible) hremote ?_
        rw [hprotected, ← hsame entry hentry]
        by_contra hungoverned
        rw [visible, if_neg hungoverned] at hvisible
        cases hvisible
  | none =>
    rw [hlive, Option.bind_none] at hinner
    rw [Option.none_or]
    cases hremote : s.remote with
    | none => rw [get_of_untracked _ _ hinner hremote, liveRemote, hremote, Option.bind_none,
        Option.bind_none]
    | some remote =>
      obtain ⟨written, hnode, -, hprotected, -⟩ := h.mirrored remote hremote
      rw [h.liveRemote_eq hremote]
      cases hflag : remote.isProtected with
      | false => exact get_of_fetched _ _ hinner hremote hflag h.idle
      | true =>
        rw [get_of_protected _ _ hinner hremote hflag, nodeGet, hnode, Option.bind_some]
        have hvisible : written.visible = none := if_pos (hprotected ▸ hflag)
        split_ifs <;> simp [hvisible]

end Get
end OverflowKey

/-- A store in which nothing is under way, with the keys of its primary by shard and the keys of
its remote metadata by stripe, in the order in which they are visited. -/
structure QuiescentStore where
  store : KvOverflowStore Bytes ℕ Bytes
  shards : List (List Bytes)
  stripes : List (List Bytes)
  mem_shards : ∀ key, key ∈ shards.flatten ↔ (store.keys key).resident.isSome
  mem_stripes : ∀ key, key ∈ stripes.flatten ↔ (store.keys key).remote.isSome
  nodup_shards : shards.flatten.Nodup
  nodup_stripes : stripes.flatten.Nodup
  settled : ∀ key, (store.keys key).Settled
  count_lt : shards.flatten.length + stripes.flatten.length < 2 ^ 64
  deadline_lt : ∀ key written, (store.keys key).held store.nowMs = some written →
    ∀ deadline ∈ written.expireAtMs, deadline < 2 ^ 64

namespace QuiescentStore

open SnapshotCodec
variable (q : QuiescentStore) (hashKey : Bytes → ℕ) {entry : StoredEntry} {key : Bytes}

/-- What the key stands for. -/
def held (key : Bytes) : Option (OverflowValue Bytes) := (q.store.keys key).held q.store.nowMs

def storedEntry (key : Bytes) (written : OverflowValue Bytes) : StoredEntry :=
  ⟨key, written.value, written.expireAtMs, written.governance⟩

def shardEntrySnapshot (keys : List Bytes) : List StoredEntry := keys.filterMap fun key =>
    ((q.store.keys key).liveResident q.store.nowMs).map (storedEntry key)

/-- `try_entry_snapshot` of the primary. -/
def innerEntrySnapshot : List StoredEntry :=
  sortByHash hashKey (q.shards.flatMap q.shardEntrySnapshot)

section Visit

variable {τ : Type} (visit : τ → StoredEntry → Except String τ)

/-- One key of the remote metadata. That the metadata is still there when it is looked up again
is not asked here, since nobody changes it. -/
def visitRemoteKey (resident : List Bytes) (state : τ) (key : Bytes) : Except String τ :=
  match (q.store.keys key).remote with
  | none => .ok state
  | some remote =>
    if key ∈ resident ∨ isExpiredAt remote.expireAtMs q.store.nowMs then .ok state
    else
      match (q.store.keys key).nodeGet q.store.nowMs with
      | none =>
        let shard := remote.primaryShard
        .error s!"kv overflow snapshot could not materialize key in primary shard {shard}"
      | some written => visit state ⟨key, written.value, remote.expireAtMs, written.governance⟩

def tryVisitEntrySnapshot (state : τ) : Except String τ := do
  let residentEntries := q.innerEntrySnapshot hashKey
  let resident := residentEntries.map (·.key)
  let state ← residentEntries.foldlM visit state
  q.stripes.foldlM (fun state stripe => stripe.foldlM (q.visitRemoteKey visit resident) state) state

end Visit

/-- The sink of `write_snapshot_streaming`: the bytes so far and the number of entries. -/
def sink (written : Bytes × ℕ) (entry : StoredEntry) : Except String (Bytes × ℕ) := do
  let bytes ← writeEntry entry
  if written.2 + 1 < 2 ^ 64 then return (written.1 ++ bytes, written.2 + 1)
  else .error "snapshot entry count overflow"

/-- The header is written first with no entries, and its count is replaced at the end. -/
def writeSnapshot (timestampMs : UInt64) : Except String Bytes := do
  let (body, count) ← q.tryVisitEntrySnapshot hashKey sink ([], 0)
  return writeHeader timestampMs.toNat count ++ body

def residentKeys : List Bytes := (q.innerEntrySnapshot hashKey).map (·.key)

def remoteEntry (key : Bytes) : Option StoredEntry :=
  if key ∈ q.residentKeys hashKey then none
  else ((q.store.keys key).liveRemote q.store.nowMs).map (storedEntry key)

/-- The entries of a snapshot in the order in which they are visited. -/
def snapshotEntries : List StoredEntry :=
  q.innerEntrySnapshot hashKey ++ q.stripes.flatten.filterMap (q.remoteEntry hashKey)

section Visit

variable {τ : Type} (visit : τ → StoredEntry → Except String τ)

theorem visitRemoteKey_eq (state : τ) (key : Bytes) :
    q.visitRemoteKey visit (q.residentKeys hashKey) state key =
      (q.remoteEntry hashKey key).elim (.ok state) (visit state) := by
  rw [visitRemoteKey, remoteEntry, OverflowKey.liveRemote]
  cases hremote : (q.store.keys key).remote with
  | none => simp
  | some remote =>
    obtain ⟨written, hnode, hdeadline, -, -⟩ := (q.settled key).mirrored remote hremote
    by_cases hresident : key ∈ q.residentKeys hashKey
    · simp [hresident]
    · by_cases hexpired : isExpiredAt remote.expireAtMs q.store.nowMs
      · simp [hexpired]
      · have hget : (q.store.keys key).nodeGet q.store.nowMs = some written := by
          rw [OverflowKey.nodeGet, hnode, Option.bind_some, isExpired, hdeadline, if_neg hexpired]
        simp [hresident, hexpired, hget, storedEntry]

theorem foldlM_stripes {γ : Type} (step : τ → γ → Except String τ) (stripes : List (List γ))
    (state : τ) :
    stripes.foldlM (fun state stripe => stripe.foldlM step state) state =
      stripes.flatten.foldlM step state := by
  induction stripes generalizing state with
  | nil => rfl
  | cons stripe stripes ih =>
    rw [foldlM_cons, flatten_cons, foldlM_append]
    exact bind_congr fun state => ih state

theorem tryVisitEntrySnapshot_eq (state : τ) : q.tryVisitEntrySnapshot hashKey visit state =
      (q.snapshotEntries hashKey).foldlM visit state := by
  rw [snapshotEntries, foldlM_append, tryVisitEntrySnapshot]
  refine bind_congr fun state => ?_
  rw [foldlM_stripes, foldlM_filterMap]
  congr 1
  funext state key
  refine (q.visitRemoteKey_eq hashKey visit state key).trans ?_
  cases q.remoteEntry hashKey key <;> rfl

end Visit

theorem mem_innerEntrySnapshot : entry ∈ q.innerEntrySnapshot hashKey ↔ ∃ written,
      (q.store.keys entry.key).liveResident q.store.nowMs = some written ∧
        storedEntry entry.key written = entry := by
  rw [innerEntrySnapshot, mem_sortByHash, mem_flatMap]
  simp only [shardEntrySnapshot, mem_filterMap, Option.map_eq_some_iff]
  constructor
  · rintro ⟨keys, -, key, -, written, hlive, rfl⟩
    exact ⟨written, hlive, rfl⟩
  · rintro ⟨written, hlive, hentry⟩
    have hkey : entry.key ∈ q.shards.flatten := by
      obtain ⟨resident, hresident, -⟩ := Option.bind_eq_some_iff.mp hlive
      rw [q.mem_shards, hresident]
      rfl
    obtain ⟨keys, hkeys, hmem⟩ := mem_flatten.mp hkey
    exact ⟨keys, hkeys, entry.key, hmem, written, hlive, hentry⟩

theorem mem_residentKeys :
    key ∈ q.residentKeys hashKey ↔ ((q.store.keys key).liveResident q.store.nowMs).isSome := by
  rw [residentKeys, mem_map, Option.isSome_iff_exists]
  constructor
  · rintro ⟨entry, hentry, rfl⟩
    obtain ⟨written, hlive, -⟩ := (q.mem_innerEntrySnapshot hashKey).mp hentry
    exact ⟨written, hlive⟩
  · rintro ⟨written, hlive⟩
    exact ⟨storedEntry key written, (q.mem_innerEntrySnapshot hashKey).mpr ⟨written, hlive, rfl⟩,
      rfl⟩

/-- A snapshot contains what the keys stand for. -/
theorem mem_snapshotEntries :
    entry ∈ q.snapshotEntries hashKey ↔ ∃ written, q.held entry.key = some written ∧
      storedEntry entry.key written = entry := by
  rw [snapshotEntries, mem_append, mem_innerEntrySnapshot, mem_filterMap]
  have hremote : (∃ key ∈ q.stripes.flatten, q.remoteEntry hashKey key = some entry) ↔
      ∃ written, (q.store.keys entry.key).liveResident q.store.nowMs = none ∧
        (q.store.keys entry.key).liveRemote q.store.nowMs = some written ∧
          storedEntry entry.key written = entry := by
    constructor
    · rintro ⟨key, -, hentry⟩
      rw [remoteEntry] at hentry
      split_ifs at hentry with hresident
      obtain ⟨written, hlive, rfl⟩ := Option.map_eq_some_iff.mp hentry
      rw [mem_residentKeys, Option.not_isSome_iff_eq_none] at hresident
      exact ⟨written, hresident, hlive, rfl⟩
    · rintro ⟨written, hresident, hlive, hentry⟩
      refine ⟨entry.key, ?_, ?_⟩
      · obtain ⟨remote, hremote, -⟩ := Option.bind_eq_some_iff.mp hlive
        rw [q.mem_stripes, hremote]
        rfl
      · rw [remoteEntry, if_neg, hlive, Option.map_some, hentry]
        rw [mem_residentKeys, hresident]
        exact Bool.false_ne_true
  rw [hremote, held, OverflowKey.held]
  cases (q.store.keys entry.key).liveResident q.store.nowMs <;> simp

def residentEntry (key : Bytes) : Option StoredEntry :=
  ((q.store.keys key).liveResident q.store.nowMs).map (storedEntry key)

theorem flatMap_shardEntrySnapshot :
    q.shards.flatMap q.shardEntrySnapshot = q.shards.flatten.filterMap q.residentEntry := by
  rw [filterMap_flatten]
  rfl

theorem key_of_residentEntry (h : q.residentEntry key = some entry) : entry.key = key := by
  obtain ⟨written, -, rfl⟩ := Option.map_eq_some_iff.mp h
  rfl

theorem key_of_remoteEntry (h : q.remoteEntry hashKey key = some entry) : entry.key = key := by
  rw [remoteEntry] at h
  split_ifs at h
  obtain ⟨written, -, rfl⟩ := Option.map_eq_some_iff.mp h
  rfl

/-- Entries that are found under their own keys stand in the order of the keys. -/
theorem keys_filterMap_sublist {find : Bytes → Option StoredEntry}
    (h : ∀ key entry, find key = some entry → entry.key = key) (keys : List Bytes) :
    ((keys.filterMap find).map (·.key)).Sublist keys := by
  induction keys with
  | nil => exact List.Sublist.slnil
  | cons key keys ih =>
    cases hfind : find key with
    | none =>
      rw [filterMap_cons_none hfind]
      exact ih.cons key
    | some entry =>
      rw [filterMap_cons_some hfind, map_cons, h key entry hfind]
      exact ih.cons_cons key

/-- No key is in a snapshot twice. -/
theorem nodup_snapshotEntries : ((q.snapshotEntries hashKey).map (·.key)).Nodup := by
  have hinner : (q.residentKeys hashKey).Nodup := by
    have hperm := (mergeSort_perm (q.shards.flatten.filterMap q.residentEntry)
      fun first second => decide (hashKey first.key ≤ hashKey second.key)).map (·.key)
    rw [residentKeys, innerEntrySnapshot, flatMap_shardEntrySnapshot]
    exact hperm.nodup_iff.mpr
      (q.nodup_shards.sublist (keys_filterMap_sublist (fun _ _ => q.key_of_residentEntry) _))
  have hremote := q.nodup_stripes.sublist
    (keys_filterMap_sublist (fun _ _ => q.key_of_remoteEntry hashKey) q.stripes.flatten)
  rw [snapshotEntries, map_append]
  refine hinner.append hremote ?_
  intro key hresident hkey
  obtain ⟨entry, hentry, rfl⟩ := mem_map.mp hkey
  obtain ⟨key, -, hentry⟩ := mem_filterMap.mp hentry
  rw [q.key_of_remoteEntry hashKey hentry] at hresident
  rw [remoteEntry, if_pos hresident] at hentry
  cases hentry

theorem length_snapshotEntries_lt : (q.snapshotEntries hashKey).length < 2 ^ 64 := by
  have hinner : (q.innerEntrySnapshot hashKey).length ≤ q.shards.flatten.length := by
    rw [innerEntrySnapshot, sortByHash, length_mergeSort, flatMap_shardEntrySnapshot]
    exact length_filterMap_le _ _
  have hremote := length_filterMap_le (q.remoteEntry hashKey) q.stripes.flatten
  have hcount := q.count_lt
  rw [snapshotEntries, length_append]
  omega

theorem foldlM_sink_eq_ok {entries : List StoredEntry} {body : Bytes} {count : ℕ}
    {out : Bytes × ℕ} (hcount : count + entries.length < 2 ^ 64) :
    entries.foldlM sink (body, count) = .ok out ↔ (∀ entry ∈ entries, Writable entry) ∧
        (body ++ entries.flatMap (entryBytes snapshotVersion), count + entries.length) = out := by
  induction entries generalizing body count with
  | nil => simp [pure, Except.pure]
  | cons entry entries ih =>
    have hlt : count + 1 < 2 ^ 64 := by
      rw [length_cons] at hcount
      omega
    have hrest : count + 1 + entries.length < 2 ^ 64 := by
      rw [length_cons] at hcount
      omega
    rw [foldlM_cons, forall_mem_cons, flatMap_cons, length_cons]
    have hout : (body ++ entryBytes snapshotVersion entry ++
        entries.flatMap (entryBytes snapshotVersion), count + 1 + entries.length) =
          (body ++ (entryBytes snapshotVersion entry ++
            entries.flatMap (entryBytes snapshotVersion)), count + (entries.length + 1)) := by
      rw [append_assoc, add_assoc, add_comm 1]
    refine Except.bind_eq_ok.trans ?_
    constructor
    · rintro ⟨next, hnext, h⟩
      obtain ⟨bytes, hbytes, hnext⟩ := Except.bind_eq_ok.mp hnext
      simp only [if_pos hlt] at hnext
      cases hnext
      obtain ⟨hentry, rfl⟩ := writeEntry_eq_ok.mp hbytes
      obtain ⟨hentries, rfl⟩ := (ih hrest).mp h
      exact ⟨⟨hentry, hentries⟩, hout.symm⟩
    · rintro ⟨⟨hentry, hentries⟩, rfl⟩
      refine ⟨(body ++ entryBytes snapshotVersion entry, count + 1), ?_, ?_⟩
      · refine Except.bind_eq_ok.mpr ⟨_, writeEntry_eq_ok.mpr ⟨hentry, rfl⟩, ?_⟩
        simp only [if_pos hlt]
        rfl
      · exact (ih hrest).mpr ⟨hentries, hout⟩

theorem writeSnapshot_eq_ok {timestampMs : UInt64} {raw : Bytes} :
    q.writeSnapshot hashKey timestampMs = .ok raw ↔
      (∀ entry ∈ q.snapshotEntries hashKey, Writable entry) ∧
        snapshotBytes snapshotVersion timestampMs.toNat (q.snapshotEntries hashKey) = raw := by
  have hcount : 0 + (q.snapshotEntries hashKey).length < 2 ^ 64 := by
    rw [Nat.zero_add]
    exact q.length_snapshotEntries_lt hashKey
  rw [writeSnapshot, tryVisitEntrySnapshot_eq, snapshotBytes_eq]
  refine Except.bind_eq_ok.trans ?_
  constructor
  · rintro ⟨out, hout, h⟩
    cases h
    obtain ⟨hwritable, rfl⟩ := (foldlM_sink_eq_ok hcount).mp hout
    exact ⟨hwritable, by simp [writeHeader, headerBytes]⟩
  · rintro ⟨hwritable, rfl⟩
    exact ⟨_, (foldlM_sink_eq_ok hcount).mpr ⟨hwritable, rfl⟩, by
      simp [writeHeader, headerBytes, pure, Except.pure]⟩

end QuiescentStore
end ShardKv
