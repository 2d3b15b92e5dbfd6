import ShardKv.Overflow.OverflowSnapshot

/-!
# Restoring a snapshot of the key-value overflow store

The entries of the file are set one after the other, each under the time that its
deadline leaves it, and the store is flushed from time to time and at the end.
The values, and the deadlines that the file can express, come back; governance
does not, since `set` has no place for it.
-/
namespace ShardKv

open List OverflowKey KvOverflowStore

/-- The worker serves the jobs of a key and their completions are applied. -/
def OverflowKey.drain {ι β : Type} (shard : ι) (s : OverflowKey ι β) : OverflowKey ι β :=
  (fun s => (s.execute true).complete shard 0)^[s.jobs.length] s

namespace KvOverflowStore

open SnapshotCodec
variable (options : KvOverflowOptions) (shardOf : Bytes → ℕ) (store : KvOverflowStore Bytes ℕ Bytes)

/-- `set` of a value that the limits of the store admit. -/
def set (key value : Bytes) (ttlMs : Option ℕ) :
    KvOverflowStore Bytes ℕ Bytes :=
  let store := store.apply options shardOf (.key key (.setResident value none ttlMs true))
  (store.apply options shardOf (.key key .setForget)).apply options shardOf (.key key .setEnqueue)

def flushRemote : KvOverflowStore Bytes ℕ Bytes :=
  { store with keys := fun key => (store.keys key).drain (shardOf key) }

/-- What is done with one entry of the file; the second component counts the restored ones. -/
def restoreEntry (queueCapacity : ℕ) (state : KvOverflowStore Bytes ℕ Bytes × ℕ)
    (entry : StoredEntry) : Except String (KvOverflowStore Bytes ℕ Bytes × ℕ) :=
  let nowMs := state.1.nowMs
  if isExpiredAt entry.expireAtMs nowMs then .ok state
  else
    let ttlMs := entry.expireAtMs.map fun deadline => deadline - nowMs
    let store := state.1.set options shardOf entry.key entry.value ttlMs
    let restored := state.2 + 1
    let flushInterval := max (queueCapacity / 2) 1
    .ok (if restored % flushInterval = 0 then store.flushRemote shardOf else store, restored)

/-- Restores a file into an empty store. -/
def restoreSnapshot (queueCapacity nowMs : ℕ) (raw : Bytes) :
    Except String (KvOverflowStore Bytes ℕ Bytes) := do
  let (_, store, _) ← decodeStream (restoreEntry options shardOf queueCapacity) raw ({ nowMs }, 0)
  return store.flushRemote shardOf

end KvOverflowStore

namespace OverflowKey

variable {ι β : Type} {shard : ι} {written : OverflowValue β} {s : OverflowKey ι β} {nowMs : ℕ}

/-- A key that was set once, before or after its job was served. -/
structure Loaded (shard : ι) (written : OverflowValue β) (s : OverflowKey ι β) : Prop where
  idle : s.client = .idle
  completions : s.completions = []
  pending : s.pending = none
  resident : ∃ generation, s.resident = some ⟨written, generation⟩ ∧
    (s.jobs = [.put written generation] ∧ s.remote = none ∨ s.jobs = [] ∧ s.node = some written ∧
        s.remote = some ⟨shard, written.expireAtMs, generation, true, written.governance.isSome⟩)

theorem drain_empty : ({} : OverflowKey ι β).drain shard = {} := rfl

theorem loaded_set (generation : ℕ) (value : β) (governance : Option β) (ttlMs : Option ℕ) :
    Loaded shard (setEntry nowMs generation value governance ttlMs).written
      ((({} : OverflowKey ι β).setResident nowMs generation value governance
        ttlMs).setForget.setEnqueue) :=
  ⟨rfl, rfl, rfl, generation, rfl, .inl ⟨rfl, rfl⟩⟩

section

variable (h : Loaded shard written s)
include h

theorem Loaded.drain : Loaded shard written (s.drain shard) ∧ (s.drain shard).jobs = [] := by
  obtain ⟨generation, hresident, ⟨hjobs, hremote⟩ | ⟨hjobs, hnode⟩⟩ := h.resident
  · have hdrain : s.drain shard = (s.execute true).complete shard 0 := by
      rw [OverflowKey.drain, hjobs]
      rfl
    have hcomplete : (s.execute true).complete shard 0 = { s with
          jobs := []
          node := some written
          remote := some ⟨shard, written.expireAtMs, generation, true, written.governance.isSome⟩
          pending := none } := by
      simp [execute, complete, hjobs, h.completions, gateFree, h.idle, applyPutCompletion,
        overflowGenerationMatches, hresident]
    rw [hdrain, hcomplete]
    exact ⟨⟨h.idle, h.completions, rfl, generation, hresident, .inr ⟨rfl, rfl, rfl⟩⟩, rfl⟩
  · have hdrain : s.drain shard = s := by
      rw [OverflowKey.drain, hjobs]
      rfl
    rw [hdrain]
    exact ⟨h, hjobs⟩

theorem Loaded.held_eq (hlive : written.isExpired nowMs = false) : s.held nowMs = some written := by
  obtain ⟨generation, hresident, -⟩ := h.resident
  simp [held, liveResident, hresident, hlive]

theorem Loaded.settled (hjobs : s.jobs = []) : s.Settled := by
  obtain ⟨generation, hresident, ⟨hqueued, -⟩ | ⟨-, hnode, hremote⟩⟩ := h.resident
  · rw [hqueued] at hjobs
    cases hjobs
  · refine ⟨h.idle, hjobs, h.completions, h.pending, ?_⟩
    intro remote hother
    cases hremote.symm.trans hother
    refine ⟨written, hnode, rfl, rfl, ?_⟩
    intro entry hentry
    cases hresident.symm.trans hentry
    rfl

end

/-- No value of the key carries governance, wherever it is, and no call is in progress. -/
structure Ungoverned (s : OverflowKey ι β) : Prop where
  idle : s.client = .idle
  resident : ∀ entry, s.resident = some entry → entry.written.governance = none
  node : ∀ written, s.node = some written → written.governance = none
  jobs : ∀ job ∈ s.jobs, ∃ written generation,
    job = .put written generation ∧ written.governance = none

theorem ungoverned_empty : Ungoverned ({} : OverflowKey ι β) :=
  ⟨rfl, (fun _ h => nomatch h), (fun _ h => nomatch h), by simp⟩

theorem Ungoverned.set (h : s.Ungoverned) (generation : ℕ) (value : β) (ttlMs : Option ℕ) :
    (s.setResident nowMs generation value none ttlMs).setForget.setEnqueue.Ungoverned := by
  let entry := setEntry nowMs generation value none ttlMs
  have hset : (s.setResident nowMs generation value none ttlMs).setForget.setEnqueue = { s with
        resident := some entry
        remote := none
        jobs := s.jobs ++ [.put entry.written entry.generation]
        client := .idle
        latest := if entry.written.isExpired nowMs then none else some entry } := by
    simp [setResident, setForget, setEnqueue, h.idle, entry]
  rw [hset]
  refine ⟨rfl, ?_, h.node, ?_⟩
  · intro other hother
    cases hother
    rfl
  · intro job hjob
    rcases mem_append.mp hjob with hjob | hjob
    · exact h.jobs job hjob
    · exact ⟨_, _, mem_singleton.mp hjob, rfl⟩

theorem Ungoverned.execute (h : s.Ungoverned) : (s.execute true).Ungoverned := by
  cases hjobs : s.jobs with
  | nil =>
    have hsame : s.execute true = s := by rw [OverflowKey.execute, hjobs]
    rwa [hsame]
  | cons job jobs =>
    obtain ⟨written, generation, rfl, hungoverned⟩ := h.jobs job (by simp [hjobs])
    rw [OverflowKey.execute, hjobs]
    refine ⟨h.idle, h.resident, ?_, fun job hjob => h.jobs job (by simp [hjobs, hjob])⟩
    intro other hother
    cases hother
    exact hungoverned

/-- At most the resident value and the bookkeeping of the key have changed. -/
structure Forgets (s s' : OverflowKey ι β) : Prop where
  client : s'.client = s.client
  resident : s'.resident = s.resident ∨ s'.resident = none
  node : s'.node = s.node
  jobs : s'.jobs = s.jobs

theorem Ungoverned.forgets {s' : OverflowKey ι β} (h : s.Ungoverned) (hs' : Forgets s s') :
    s'.Ungoverned := by
  refine ⟨hs'.client.trans h.idle, ?_, hs'.node ▸ h.node, hs'.jobs ▸ h.jobs⟩
  intro entry hentry
  rcases hs'.resident with hresident | hresident
  · exact h.resident entry (hresident ▸ hentry)
  · rw [hresident] at hentry
    cases hentry

theorem applyDeleteCompletion_forgets (generation : ℕ) (succeeded : Bool) :
    Forgets s (s.applyDeleteCompletion generation succeeded) := by
  unfold applyDeleteCompletion
  split
  · exact ⟨rfl, .inl rfl, rfl, rfl⟩
  · split_ifs
    · exact ⟨rfl, .inl rfl, rfl, rfl⟩
    · exact ⟨rfl, .inr rfl, rfl, rfl⟩
    · split <;> exact ⟨rfl, .inl rfl, rfl, rfl⟩

theorem complete_forgets (index : ℕ) : Forgets s (s.complete shard index) := by
  unfold complete
  split_ifs
  · exact ⟨rfl, .inl rfl, rfl, rfl⟩
  · dsimp only
    split
    · unfold applyPutCompletion
      split_ifs
      · exact ⟨rfl, .inl rfl, rfl, rfl⟩
      · exact ⟨rfl, .inl rfl, rfl, rfl⟩
      · split <;> exact ⟨rfl, .inl rfl, rfl, rfl⟩
    next generation succeeded _ =>
      have h : Forgets { s with completions := s.completions.eraseIdx index } _ :=
        applyDeleteCompletion_forgets generation succeeded
      exact ⟨h.client, h.resident, h.node, h.jobs⟩
    · exact ⟨rfl, .inl rfl, rfl, rfl⟩

theorem Ungoverned.drain (h : s.Ungoverned) : (s.drain shard).Ungoverned := by
  rw [OverflowKey.drain]
  generalize s.jobs.length = count
  induction count generalizing s with
  | zero => exact h
  | succ count ih =>
    rw [Function.iterate_succ_apply]
    exact ih (h.execute.forgets (complete_forgets 0))

theorem Ungoverned.governance_eq (h : s.Ungoverned) (hheld : s.held nowMs = some written) :
    written.governance = none := by
  rw [held, Option.or_eq_some_iff] at hheld
  rcases hheld with hlive | ⟨-, hlive⟩
  · obtain ⟨entry, hentry, hlive⟩ := Option.bind_eq_some_iff.mp hlive
    split_ifs at hlive
    cases hlive
    exact h.resident entry hentry
  · obtain ⟨remote, -, hlive⟩ := Option.bind_eq_some_iff.mp hlive
    split_ifs at hlive
    obtain ⟨stored, hstored, rfl⟩ := Option.map_eq_some_iff.mp hlive
    obtain ⟨node, hnode, hstored⟩ := Option.bind_eq_some_iff.mp hstored
    split_ifs at hstored
    cases hstored
    exact h.node stored hnode

end OverflowKey

namespace KvOverflowStore

open SnapshotCodec
variable (options : KvOverflowOptions) (shardOf : Bytes → ℕ) (queueCapacity : ℕ)
  {entry : StoredEntry}

section Set

variable (store : KvOverflowStore Bytes ℕ Bytes) (key value : Bytes) (ttlMs : Option ℕ)

theorem set_keys : (store.set options shardOf key value ttlMs).keys = Function.update store.keys key
      (((store.keys key).setResident store.nowMs (store.sequence (shardOf key)) value none
        ttlMs).setForget.setEnqueue) := by
  simp [set, apply, step]

end Set

/-- The store after some entries were restored. -/
structure Restored (nowMs : ℕ) (entries : List StoredEntry)
    (store : KvOverflowStore Bytes ℕ Bytes) : Prop where
  clock : store.nowMs = nowMs
  loaded : ∀ entry ∈ entries, (store.keys entry.key).Loaded (shardOf entry.key)
    ⟨entry.value, none, entry.expireAtMs⟩
  untouched : ∀ key, key ∉ entries.map (·.key) → store.keys key = {}

variable {shardOf} {nowMs : ℕ} {entries : List StoredEntry}
  {store : KvOverflowStore Bytes ℕ Bytes}

theorem restored_empty (nowMs : ℕ) : Restored shardOf nowMs [] { nowMs } :=
  ⟨rfl, by simp, fun _ _ => rfl⟩

theorem Restored.flushRemote (h : Restored shardOf nowMs entries store) :
    Restored shardOf nowMs entries (store.flushRemote shardOf) := by
  refine ⟨h.clock, fun entry hentry => (h.loaded entry hentry).drain.1, fun key hkey => ?_⟩
  rw [KvOverflowStore.flushRemote]
  simp only [h.untouched key hkey, drain_empty]

/-- A live deadline comes back from the time to live that is computed from it. -/
theorem setEntry_written (hlive : isExpiredAt entry.expireAtMs nowMs = false)
    (hlt : ∀ deadline ∈ entry.expireAtMs, deadline < 2 ^ 64) (generation : ℕ) :
    (setEntry nowMs generation entry.value none
      (entry.expireAtMs.map fun deadline => deadline - nowMs)).written =
        ⟨entry.value, none, entry.expireAtMs⟩ := by
  rw [setEntry]
  cases hdeadline : entry.expireAtMs with
  | none => rfl
  | some deadline =>
    have hfuture : nowMs < deadline := by simpa [hdeadline, isExpiredAt] using hlive
    have hbound := hlt deadline hdeadline
    have hmin : min (nowMs + (deadline - nowMs)) (2 ^ 64 - 1) = deadline := by omega
    rw [Option.map_some, Option.map_some, hmin]

section

variable (h : Restored shardOf nowMs entries store)
include h

theorem Restored.set (hnew : entry.key ∉ entries.map (·.key))
    (hlive : isExpiredAt entry.expireAtMs nowMs = false)
    (hlt : ∀ deadline ∈ entry.expireAtMs, deadline < 2 ^ 64) :
    Restored shardOf nowMs (entries ++ [entry]) (store.set options shardOf entry.key entry.value
      (entry.expireAtMs.map fun deadline => deadline - nowMs)) := by
  refine ⟨h.clock, ?_, ?_⟩
  · intro other hother
    rw [set_keys]
    rcases mem_append.mp hother with hother | hother
    · have hne : other.key ≠ entry.key := by
        intro heq
        exact hnew (heq ▸ mem_map_of_mem hother)
      rw [Function.update_of_ne hne]
      exact h.loaded other hother
    · cases mem_singleton.mp hother
      rw [Function.update_self, h.untouched entry.key hnew, h.clock,
        ← setEntry_written hlive hlt (store.sequence (shardOf entry.key))]
      exact loaded_set _ _ _ _
  · intro key hkey
    rw [map_append, mem_append, not_or] at hkey
    have hne : key ≠ entry.key := by simpa using hkey.2
    rw [set_keys, Function.update_of_ne hne]
    exact h.untouched key hkey.1

theorem Restored.restoreEntry (restored : ℕ) (hnew : entry.key ∉ entries.map (·.key))
    (hlive : isExpiredAt entry.expireAtMs nowMs = false)
    (hlt : ∀ deadline ∈ entry.expireAtMs, deadline < 2 ^ 64) :
    ∃ next, KvOverflowStore.restoreEntry options shardOf queueCapacity (store, restored) entry =
      .ok next ∧ Restored shardOf nowMs (entries ++ [entry]) next.1 := by
  have hset := h.set options hnew hlive hlt
  rw [KvOverflowStore.restoreEntry]
  simp only [h.clock, hlive, Bool.false_eq_true, if_false]
  refine ⟨_, rfl, ?_⟩
  split_ifs
  · exact hset.flushRemote
  · exact hset

theorem Restored.foldlM {rest : List StoredEntry} {restored : ℕ}
    (hnodup : ((entries ++ rest).map (·.key)).Nodup)
    (hlive : ∀ entry ∈ rest, isExpiredAt entry.expireAtMs nowMs = false)
    (hlt : ∀ entry ∈ rest, ∀ deadline ∈ entry.expireAtMs, deadline < 2 ^ 64) :
    ∃ last, rest.foldlM (KvOverflowStore.restoreEntry options shardOf queueCapacity)
      (store, restored) = .ok last ∧ Restored shardOf nowMs (entries ++ rest) last.1 := by
  induction rest generalizing entries store restored with
  | nil => exact ⟨_, rfl, by rwa [append_nil]⟩
  | cons entry rest ih =>
    have hnew : entry.key ∉ entries.map (·.key) := by
      intro hmem
      rw [map_append, nodup_append] at hnodup
      exact hnodup.2.2 _ hmem entry.key (by simp) rfl
    obtain ⟨next, hnext, hrestored⟩ := h.restoreEntry options queueCapacity restored hnew
      (hlive entry (by simp)) (hlt entry (by simp))
    rw [append_cons] at hnodup ⊢
    obtain ⟨last, hlast, hdone⟩ := ih hrestored hnodup
      (fun other hother => hlive other (by simp [hother]))
      (fun other hother => hlt other (by simp [hother]))
    refine ⟨last, ?_, hdone⟩
    rw [foldlM_cons, hnext]
    exact hlast

theorem Restored.settled (key : Bytes) : ((store.flushRemote shardOf).keys key).Settled := by
  by_cases hkey : key ∈ entries.map (·.key)
  · obtain ⟨entry, hentry, rfl⟩ := mem_map.mp hkey
    obtain ⟨hloaded, hjobs⟩ := (h.loaded entry hentry).drain
    exact hloaded.settled hjobs
  · rw [h.flushRemote.untouched key hkey]
    exact settled_empty

end

/-- However the bytes of a file are read, what is restored from them carries no governance. -/
theorem ungoverned_restoreSnapshot {raw : Bytes} {restored : KvOverflowStore Bytes ℕ Bytes}
    (h : restoreSnapshot options shardOf queueCapacity nowMs raw = .ok restored) (key : Bytes) :
    (restored.keys key).Ungoverned := by
  obtain ⟨⟨timestampMs, last, count⟩, hlast, hout⟩ := Except.bind_eq_ok.mp h
  cases hout
  refine OverflowKey.Ungoverned.drain ?_
  refine decodeStream_invariant (P := fun state => ∀ key, (state.1.keys key).Ungoverned) _ ?_
    (fun _ => ungoverned_empty) hlast key
  intro state entry next hstate hnext key
  rw [restoreEntry] at hnext
  split_ifs at hnext with hexpired
  · cases hnext
    exact hstate key
  · cases hnext
    have hset : ∀ key, ((state.1.set options shardOf entry.key entry.value
        (entry.expireAtMs.map fun deadline => deadline - state.1.nowMs)).keys key).Ungoverned := by
      intro key
      rw [set_keys]
      by_cases hkey : key = entry.key
      · rw [hkey, Function.update_self]
        exact (hstate entry.key).set _ _ _
      · rw [Function.update_of_ne hkey]
        exact hstate key
    split_ifs
    · exact (hset key).drain
    · exact hset key

end KvOverflowStore

namespace QuiescentStore

open SnapshotCodec
variable (q : QuiescentStore) (hashKey : Bytes → ℕ)

/-- The greatest deadline is written as if there were none. -/
def readBack (entry : StoredEntry) : StoredEntry :=
  { entry with expireAtMs := storedDeadline (entry.expireAtMs.getD expireNone) }

theorem getD_storedDeadline (expireRaw : ℕ) :
    (storedDeadline expireRaw).getD expireNone = expireRaw := by
  rw [storedDeadline]
  split_ifs with h
  · exact h.symm
  · rfl

theorem snapshotBytes_readBack (version timestampMs : ℕ) (entries : List StoredEntry) :
    snapshotBytes version timestampMs (entries.map readBack) =
      snapshotBytes version timestampMs entries := by
  have hentry : ∀ entry, entryBytes version (readBack entry) = entryBytes version entry := by
    simp [entryBytes, entryFields, readBack, getD_storedDeadline]
  simp only [snapshotBytes, length_map, flatMap_map, hentry]

theorem isExpired_of_held {key : Bytes} {written : OverflowValue Bytes}
    (h : q.held key = some written) : written.isExpired q.store.nowMs = false := by
  rw [held, OverflowKey.held, Option.or_eq_some_iff] at h
  rcases h with h | ⟨-, h⟩
  · obtain ⟨entry, -, h⟩ := Option.bind_eq_some_iff.mp h
    split_ifs at h with hexpired
    cases h
    exact Bool.eq_false_of_not_eq_true hexpired
  · obtain ⟨remote, -, h⟩ := Option.bind_eq_some_iff.mp h
    split_ifs at h with hexpired
    obtain ⟨stored, -, rfl⟩ := Option.map_eq_some_iff.mp h
    exact Bool.eq_false_of_not_eq_true hexpired

theorem deadline_lt_of_mem {entry : StoredEntry} (h : entry ∈ q.snapshotEntries hashKey) :
    ∀ deadline ∈ entry.expireAtMs, deadline < 2 ^ 64 := by
  obtain ⟨written, hheld, hentry⟩ := (q.mem_snapshotEntries hashKey).mp h
  rw [← hentry]
  exact q.deadline_lt entry.key written hheld

/-- What is read back as a deadline is one, and the same as before. -/
theorem storedDeadline_getD_eq_some {expireAtMs : Option ℕ} {deadline : ℕ}
    (h : storedDeadline (expireAtMs.getD expireNone) = some deadline) :
    expireAtMs = some deadline ∧ deadline ≠ expireNone := by
  rw [storedDeadline] at h
  split_ifs at h with hnone
  cases h
  cases expireAtMs with
  | none => exact absurd rfl hnone
  | some deadline => exact ⟨rfl, hnone⟩

theorem isExpiredAt_readBack {entry : StoredEntry} (h : entry ∈ q.snapshotEntries hashKey) :
    isExpiredAt (readBack entry).expireAtMs q.store.nowMs = false := by
  obtain ⟨written, hheld, hentry⟩ := (q.mem_snapshotEntries hashKey).mp h
  have hlive : isExpiredAt entry.expireAtMs q.store.nowMs = false := by
    rw [← hentry]
    exact q.isExpired_of_held hheld
  cases hback : (readBack entry).expireAtMs with
  | none => rfl
  | some deadline => rwa [← (storedDeadline_getD_eq_some hback).1]

section Restore

variable (options : KvOverflowOptions) (shardOf : Bytes → ℕ) (queueCapacity : ℕ)
  (timestampMs : UInt64)

theorem decodeStreamEntries_snapshot
    (hwritable : ∀ entry ∈ q.snapshotEntries hashKey, Writable entry)
    (hungoverned : ∀ entry ∈ q.snapshotEntries hashKey, entry.governance = none) :
    decodeStreamEntries
        (snapshotBytes snapshotVersion timestampMs.toNat (q.snapshotEntries hashKey)) =
      .ok (timestampMs.toNat, (q.snapshotEntries hashKey).map readBack) := by
  rw [← snapshotBytes_readBack]
  refine decodeStreamEntries_eq_ok.mpr ⟨snapshotVersion, ⟨.inr rfl, timestampMs.toNat_lt, ?_, ?_⟩,
    rfl⟩
  · rw [length_map]
    exact q.length_snapshotEntries_lt hashKey
  · intro entry hentry
    obtain ⟨entry, hmem, rfl⟩ := mem_map.mp hentry
    obtain ⟨hkey, hvalue, -⟩ := hwritable entry hmem
    have hnone : (readBack entry).governance = none := hungoverned entry hmem
    refine ⟨hkey, hvalue, ?_, by simp [hnone], fun _ => hnone⟩
    intro deadline hdeadline
    obtain ⟨hsame, hne⟩ := storedDeadline_getD_eq_some hdeadline
    have hlt := q.deadline_lt_of_mem hashKey hmem deadline hsame
    rw [expireNone] at hne ⊢
    omega

/-- What is read back of a value. -/
def readBackValue (written : OverflowValue Bytes) : OverflowValue Bytes :=
  ⟨written.value, none, storedDeadline (written.expireAtMs.getD expireNone)⟩

/-- A store without governance is restored, up to deadlines that are written as none. -/
theorem restoreSnapshot_held (hwritable : ∀ entry ∈ q.snapshotEntries hashKey, Writable entry)
    (hungoverned : ∀ entry ∈ q.snapshotEntries hashKey, entry.governance = none) :
    ∃ restored, KvOverflowStore.restoreSnapshot options shardOf queueCapacity q.store.nowMs
        (snapshotBytes snapshotVersion timestampMs.toNat (q.snapshotEntries hashKey)) =
          .ok restored ∧
      ∀ key, (restored.keys key).Settled ∧
        (restored.keys key).held q.store.nowMs = (q.held key).map readBackValue := by
  set entries := (q.snapshotEntries hashKey).map readBack with hentries
  have hkeys : entries.map (·.key) = (q.snapshotEntries hashKey).map (·.key) := by
    rw [hentries, map_map]
    rfl
  have hlive : ∀ entry ∈ entries, isExpiredAt entry.expireAtMs q.store.nowMs = false := by
    intro entry hentry
    obtain ⟨entry, hmem, rfl⟩ := mem_map.mp hentry
    exact q.isExpiredAt_readBack hashKey hmem
  have hlt : ∀ entry ∈ entries, ∀ deadline ∈ entry.expireAtMs, deadline < 2 ^ 64 := by
    intro entry hentry deadline hdeadline
    obtain ⟨entry, hmem, rfl⟩ := mem_map.mp hentry
    exact q.deadline_lt_of_mem hashKey hmem deadline (storedDeadline_getD_eq_some hdeadline).1
  have hempty : KvOverflowStore.Restored shardOf q.store.nowMs [] { nowMs := q.store.nowMs } :=
    KvOverflowStore.restored_empty q.store.nowMs
  obtain ⟨last, hlast, hrestored⟩ := hempty.foldlM options queueCapacity
    (hkeys ▸ q.nodup_snapshotEntries hashKey) hlive hlt
  rw [nil_append] at hrestored
  refine ⟨last.1.flushRemote shardOf, ?_, fun key => ⟨hrestored.settled key, ?_⟩⟩
  · rw [KvOverflowStore.restoreSnapshot, decodeStream_eq _ _
      (q.decodeStreamEntries_snapshot hashKey timestampMs hwritable hungoverned), ← hentries, hlast]
    rfl
  · cases hheld : q.held key with
    | none =>
      rw [hrestored.flushRemote.untouched key]
      · rfl
      · rw [hkeys, mem_map]
        rintro ⟨entry, hentry, rfl⟩
        obtain ⟨written, hsome, -⟩ := (q.mem_snapshotEntries hashKey).mp hentry
        rw [hheld] at hsome
        cases hsome
    | some written =>
      have hmem : storedEntry key written ∈ q.snapshotEntries hashKey :=
        (q.mem_snapshotEntries hashKey).mpr ⟨written, hheld, rfl⟩
      have hload := hrestored.flushRemote.loaded _ (mem_map_of_mem hmem)
      exact hload.held_eq (hlive _ (mem_map_of_mem hmem))

end Restore

/-- A value that a snapshot and its restore keep as it is. -/
structure Survives (key : Bytes) (written : OverflowValue Bytes) : Prop where
  ungoverned : written.governance = none
  deadline : written.expireAtMs ≠ some expireNone
  key_lt : key.length < 2 ^ 32
  value_lt : written.value.length < 2 ^ 32

theorem readBackValue_eq {key : Bytes} {written : OverflowValue Bytes}
    (h : Survives key written) : readBackValue written = written := by
  obtain ⟨value, governance, expireAtMs⟩ := written
  obtain ⟨rfl, hdeadline, -, -⟩ := h
  cases expireAtMs with
  | none => rfl
  | some deadline =>
    have hne : deadline ≠ expireNone := fun heq => hdeadline (congrArg some heq)
    simp [readBackValue, storedDeadline, hne]

/-- The restored store has the same map, and what ordinary reads did not see they still do not
see. -/
structure Preserved (restored : KvOverflowStore Bytes ℕ Bytes) : Prop where
  same_map : ∀ key, (restored.keys key).held q.store.nowMs = q.held key
  still_hidden : ∀ key forgetRemoteMisses admitted,
    (q.store.keys key).get q.store.nowMs forgetRemoteMisses admitted = none →
      (restored.keys key).get q.store.nowMs forgetRemoteMisses admitted = none

theorem snapshotPreserved_iff (options : KvOverflowOptions) (shardOf : Bytes → ℕ) (queueCapacity : ℕ)
    (timestampMs : UInt64) :
    (∃ raw restored, q.writeSnapshot hashKey timestampMs = .ok raw ∧
      KvOverflowStore.restoreSnapshot options shardOf queueCapacity q.store.nowMs raw =
        .ok restored ∧ q.Preserved restored) ↔
      ∀ key written, q.held key = some written → Survives key written := by
  constructor
  · rintro ⟨raw, restored, hraw, hrestore, hpreserved⟩ key written hheld
    obtain ⟨hwritable, rfl⟩ := (q.writeSnapshot_eq_ok hashKey).mp hraw
    have hnone : ∀ key written, q.held key = some written → written.governance = none := by
      intro key written hheld
      rw [← hpreserved.same_map key] at hheld
      exact (ungoverned_restoreSnapshot options queueCapacity hrestore
        key).governance_eq hheld
    have hungoverned : ∀ entry ∈ q.snapshotEntries hashKey, entry.governance = none := by
      intro entry hentry
      obtain ⟨written, hheld, hstored⟩ := (q.mem_snapshotEntries hashKey).mp hentry
      rw [← hstored]
      exact hnone entry.key written hheld
    obtain ⟨other, hother, hback⟩ :=
      q.restoreSnapshot_held hashKey options shardOf queueCapacity timestampMs hwritable hungoverned
    cases hrestore.symm.trans hother
    have hmem : storedEntry key written ∈ q.snapshotEntries hashKey :=
      (q.mem_snapshotEntries hashKey).mpr ⟨written, hheld, rfl⟩
    obtain ⟨hkey, hvalue, -⟩ := hwritable _ hmem
    refine ⟨hnone key written hheld, ?_, hkey, hvalue⟩
    intro hdeadline
    have hsame := (hback key).2
    rw [hpreserved.same_map, hheld, Option.map_some, Option.some.injEq] at hsame
    have hlost := congrArg OverflowValue.expireAtMs hsame
    rw [readBackValue, hdeadline] at hlost
    cases hlost
  · intro hsurvives
    have hentry : ∀ entry ∈ q.snapshotEntries hashKey, ∃ written,
        Survives entry.key written ∧ storedEntry entry.key written = entry := by
      intro entry hentry
      obtain ⟨written, hheld, hstored⟩ := (q.mem_snapshotEntries hashKey).mp hentry
      exact ⟨written, hsurvives entry.key written hheld, hstored⟩
    have hungoverned : ∀ entry ∈ q.snapshotEntries hashKey, entry.governance = none := by
      intro entry hmem
      obtain ⟨written, hsurvives, hstored⟩ := hentry entry hmem
      rw [← hstored]
      exact hsurvives.ungoverned
    have hwritable : ∀ entry ∈ q.snapshotEntries hashKey, Writable entry := by
      intro entry hmem
      have hnone := hungoverned entry hmem
      obtain ⟨written, hsurvives, hstored⟩ := hentry entry hmem
      refine ⟨hsurvives.key_lt, ?_, by simp [hnone]⟩
      rw [← hstored]
      exact hsurvives.value_lt
    obtain ⟨restored, hrestore, hback⟩ :=
      q.restoreSnapshot_held hashKey options shardOf queueCapacity timestampMs hwritable hungoverned
    have hsame : ∀ key, (restored.keys key).held q.store.nowMs = q.held key := by
      intro key
      rw [(hback key).2]
      cases hheld : q.held key with
      | none => rfl
      | some written => exact congrArg some (readBackValue_eq (hsurvives key written hheld))
    refine ⟨_, restored, (q.writeSnapshot_eq_ok hashKey).mpr ⟨hwritable, rfl⟩, hrestore, hsame, ?_⟩
    intro key forgetRemoteMisses admitted hhidden
    rw [(hback key).1.get_eq, hsame, held, ← (q.settled key).get_eq forgetRemoteMisses admitted]
    exact hhidden

/-- One value with governance, in the primary and on its node. -/
def protectedStore : QuiescentStore where
  store :=
    { nowMs := 5
      keys := fun key =>
        if key = [1] then
          ((({} : OverflowKey ℕ Bytes).setResident 5 1 [7] (some [9])
            none).setForget.setEnqueue).drain 0
        else {} }
  shards := [[[1]]]
  stripes := [[[1]]]
  mem_shards key := by
    by_cases hkey : key = [1]
    · simp only [hkey, if_true]
      decide
    · simp [hkey]
  mem_stripes key := by
    by_cases hkey : key = [1]
    · simp only [hkey, if_true]
      decide
    · simp [hkey]
  nodup_shards := by decide
  nodup_stripes := by decide
  settled key := by
    by_cases hkey : key = [1]
    · simp only [hkey, if_true]
      exact (OverflowKey.loaded_set 1 [7] (some [9]) none).drain.1.settled
        (OverflowKey.loaded_set 1 [7] (some [9]) none).drain.2
    · simp only [hkey, if_false]
      exact OverflowKey.settled_empty
  count_lt := by decide
  deadline_lt key written hheld := by
    by_cases hkey : key = [1]
    · simp only [hkey, if_true] at hheld
      cases hheld
      exact fun deadline hdeadline => nomatch hdeadline
    · simp only [hkey, if_false] at hheld
      cases hheld

/-- Ordinary reads do not see the value before the snapshot, and see it after the restore. -/
theorem protectedStore_exposed :
    (protectedStore.store.keys [1]).get protectedStore.store.nowMs false true = none ∧
      ∃ raw restored, protectedStore.writeSnapshot (fun _ => 0) 0 = .ok raw ∧
        KvOverflowStore.restoreSnapshot {} (fun _ => 0) 8 protectedStore.store.nowMs raw =
          .ok restored ∧
        (restored.keys [1]).get protectedStore.store.nowMs false true = some [7] := by
  have hrun : ((protectedStore.writeSnapshot (fun _ => 0) 0).bind fun raw =>
      (restoreSnapshot {} (fun _ => 0) 8 protectedStore.store.nowMs raw).map
        fun restored => (restored.keys [1]).get protectedStore.store.nowMs false true) =
          .ok (some [7]) := by
    decide +kernel
  obtain ⟨raw, hraw, hrun⟩ := Except.bind_eq_ok.mp hrun
  obtain ⟨restored, hrestored, hget⟩ := Except.map_eq_ok.mp hrun
  exact ⟨by decide, raw, restored, hraw, hrestored, hget⟩

end QuiescentStore
end ShardKv
