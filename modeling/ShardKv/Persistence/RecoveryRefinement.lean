import ShardKv.Persistence.ShardLog

/-!
# Recovery ends where the history ended

A snapshot asks the shards one after the other, so each shard answers after some
prefix of its own history and at its own time. The log holds the records of all
shards in some interleaving. Loading the snapshot, replaying the log and opening
the shards gives, under every key, what is live in the shard that ran the whole
history.
-/
namespace ShardKv

open FlatMap ShardState CellEvent RecoveryAccumulator List

/-- The shards' answers put together. -/
def collectSnapshot (answers : List (Except Unit (List StoredEntry))) (nowMs : ℕ) :
    Except Unit LoadedSnapshot := do
  let parts ← answers.mapM id
  return { timestampMs := nowMs, entries := parts.flatten }

variable (key : Bytes)

def entriesOf (entries : List StoredEntry) : List StoredEntry :=
  entries.filter fun entry => decide (entry.key = key)

theorem entriesOf_flatten (parts : List (List StoredEntry)) :
    entriesOf key parts.flatten = (parts.map (entriesOf key)).flatten := by
  rw [entriesOf, filter_flatten]
  rfl

theorem entriesOf_cons (entry : StoredEntry) (entries : List StoredEntry) :
    entriesOf key (entry :: entries) =
      if entry.key = key then entry :: entriesOf key entries else entriesOf key entries := by
  simp [entriesOf, filter_cons]

/-- Loading a list of entries leaves the last one of each key. -/
theorem foldl_insert_lookup (entries : List StoredEntry) :
    ∀ loaded : FinMap Bytes StoredEntry,
      (entries.foldl (fun loaded entry => loaded.insert entry.key entry) loaded).lookup key =
        ((entriesOf key entries).getLast?).or (loaded.lookup key) := by
  induction entries with
  | nil => exact fun _ => rfl
  | cons entry entries ih =>
    intro loaded
    rw [foldl_cons, ih, FinMap.lookup_insert_eq, entriesOf_cons]
    by_cases hkey : entry.key = key
    · rw [if_pos hkey, if_pos hkey.symm, List.getLast?_cons]
      cases (entriesOf key entries).getLast? <;> rfl
    · rw [if_neg hkey, if_neg (Ne.symm hkey)]

/-- Selecting a key commutes with a conversion that keeps it. -/
theorem entriesOf_filterMap {ν : Type} (key : Bytes) (stored : FinMap Bytes ν)
    (convert : (Sigma fun _ : Bytes => ν) → Option StoredEntry)
    (hkey : ∀ item ∈ stored.entries, ∀ entry, convert item = some entry → entry.key = item.1) :
    entriesOf key (stored.entries.filterMap convert) =
      (((stored.lookup key).map (Sigma.mk key)).bind convert).toList := by
  have hswap : entriesOf key (stored.entries.filterMap convert) =
      (stored.entries.filter fun item => decide (item.1 = key)).filterMap convert := by
    rw [entriesOf, filter_filterMap, filterMap_filter]
    apply filterMap_congr
    intro item hitem
    cases hconverted : convert item with
    | none => simp
    | some entry =>
      have hsame := hkey item hitem entry hconverted
      by_cases hmine : item.1 = key
      · simp [Option.filter, hmine, hsame]
      · simp [Option.filter, hmine, hsame]
  rw [hswap, FinMap.dlookup_toList stored.nodupKeys, AList.lookup]
  cases stored.entries.dlookup key with
  | none => rfl
  | some value =>
    cases convert ⟨key, value⟩ <;> rfl

/-- A shard contributes at most one entry for a key: the live one. -/
theorem entriesOf_residentSnapshot (map : FlatMap) (nowMs : ℕ) (key : Bytes) :
    entriesOf key (map.residentSnapshot nowMs) =
      (entryLifetime.purge nowMs (map.view key)).toList := by
  rw [residentSnapshot, entriesOf_filterMap, view]
  · congr 1
    cases map.entries.lookup key with
    | none => rfl
    | some entry => exact (purge_some nowMs (entry.toStored key)).symm
  · intro item _ entry hentry
    split_ifs at hentry
    cases hentry
    rfl

theorem fromEntries_view_foldl (nowMs : ℕ) (key : Bytes) (entries : List StoredEntry) :
    ∀ map, Quiet map → (entries.foldl (fun map entry =>
          if isExpiredAt entry.expireAtMs nowMs then map
          else map.setBytesHashedWithGovernanceOption {} entry.key entry.value entry.governance
            entry.expireAtMs nowMs) map).view key =
        (entriesOf key entries).foldl (fun cell entry =>
          if isExpiredAt entry.expireAtMs nowMs then cell else some entry) (map.view key) := by
  induction entries with
  | nil => exact fun _ _ => rfl
  | cons entry entries ih =>
    intro map hquiet
    rw [foldl_cons, entriesOf_cons]
    have hedits := setReplacing_edits hquiet entry.key nowMs {} entry.value entry.governance
      entry.expireAtMs
    by_cases hkey : entry.key = key
    · rw [if_pos hkey, foldl_cons]
      split_ifs
      · exact ih map hquiet
      · refine (ih _ hedits.quiet).trans ?_
        rw [hedits.view key, if_pos hkey.symm]
        rfl
    · rw [if_neg hkey]
      split_ifs
      · exact ih map hquiet
      · refine (ih _ hedits.quiet).trans ?_
        rw [hedits.view key, if_neg (Ne.symm hkey)]

/-- An opened shard holds the entry of a key unless its deadline has passed. -/
theorem fromEntries_view {entries : List StoredEntry} {key : Bytes} {cell : Option StoredEntry}
    (h : entriesOf key entries = cell.toList) (nowMs : ℕ) :
    (FlatMap.fromEntries entries nowMs).view key = entryLifetime.purge nowMs cell := by
  have hempty : Quiet {} := ⟨rfl, rfl, rfl⟩
  refine (fromEntries_view_foldl nowMs key entries {} hempty).trans ?_
  rw [h]
  cases cell with
  | none => rfl
  | some => exact (purge_some nowMs _).symm

namespace RecoveryAccumulator

/-- Entries are filed under their own key. -/
def WellKeyed (recovery : RecoveryAccumulator) : Prop :=
  ∀ key entry, recovery.entries.lookup key = some entry → entry.key = key

theorem wellKeyed_insert {entries : FinMap Bytes StoredEntry} {entry : StoredEntry}
    (h : ∀ key stored, entries.lookup key = some stored → stored.key = key) :
    ∀ key stored, (entries.insert entry.key entry).lookup key = some stored → stored.key = key := by
  intro key stored hstored
  rw [FinMap.lookup_insert_eq] at hstored
  split_ifs at hstored with hkey
  · cases hstored
    exact hkey.symm
  · exact h key stored hstored

theorem wellKeyed_applySnapshot (snapshot : LoadedSnapshot) :
    WellKeyed (applySnapshot {} snapshot) := by
  have hfold : ∀ (entries : List StoredEntry) (loaded : FinMap Bytes StoredEntry),
      (∀ key stored, loaded.lookup key = some stored → stored.key = key) →
      ∀ key stored, (entries.foldl (fun loaded entry => loaded.insert entry.key entry)
        loaded).lookup key = some stored → stored.key = key := by
    intro entries
    induction entries with
    | nil => exact fun _ h => h
    | cons entry entries ih => exact fun loaded h => ih _ (wellKeyed_insert h)
  apply hfold
  intro key stored hstored
  cases hstored

variable {recovery : RecoveryAccumulator}

theorem wellKeyed_applyRecord (h : WellKeyed recovery)
    (record : MutationRecord) : WellKeyed (recovery.applyRecord record) := by
  unfold applyRecord
  split_ifs
  · exact h
  · intro key entry hentry
    by_cases hkey : key = record.key
    · subst hkey
      rw [applyCurrentRecord_lookup, if_pos rfl, MutationRecord.edit] at hentry
      cases hop : record.op with
      | set =>
        rw [hop] at hentry
        cases hentry
        rfl
      | del =>
        rw [hop] at hentry
        cases hentry
      | expire =>
        rw [hop] at hentry
        obtain ⟨stored, hstored, rfl⟩ := Option.map_eq_some_iff.mp hentry
        exact h record.key stored hstored
    · rw [applyCurrentRecord_lookup, if_neg hkey] at hentry
      exact h key entry hentry

theorem wellKeyed_replayRecords (records : List MutationRecord) :
    ∀ {recovery : RecoveryAccumulator}, WellKeyed recovery →
      WellKeyed (recovery.replayRecords records) := by
  induction records with
  | nil => exact fun h => h
  | cons record records ih => exact fun h => ih (wellKeyed_applyRecord h record)

/-- What the worker of a key's shard starts with under that key. -/
theorem openShard_view (h : WellKeyed recovery)
    (route : Bytes → ℕ) (nowMs : ℕ) (key : Bytes) :
    (openShard route recovery (route key) nowMs).view key =
      entryLifetime.purge nowMs (recovery.entries.lookup key) := by
  apply fromEntries_view
  have hall : entriesOf key (recovery.entries.entries.map fun stored => stored.2) =
      (recovery.entries.lookup key).toList := by
    rw [← filterMap_eq_map, entriesOf_filterMap]
    · cases recovery.entries.lookup key <;> rfl
    · intro item hitem entry hentry
      cases hentry
      exact h item.1 item.2 (AList.mem_lookup_iff.mpr hitem)
  rw [← hall, entriesOf, partition, filter_filter]
  apply filter_congr
  intro entry _
  by_cases hkey : entry.key = key
  · simp [hkey]
  · simp [hkey]

end RecoveryAccumulator

/-- The histories of all shards, cut where each of them answered the snapshot
request. For every key the clock never goes back: over the events before the
answer, the answer, the events after it and the time at which liveness is judged.
Everything older than the snapshot's timestamp happened before the answers. -/
structure SnapshotHistory where
  route : Bytes → ℕ
  shardCount : ℕ
  route_lt : ∀ key, route key < shardCount
  front : ℕ → List ShardEvent
  rest : ℕ → List ShardEvent
  routed : ∀ shard, ∀ event ∈ front shard ++ rest shard, ∀ op, event.turn = .execute op →
    route op.key = shard
  takenAt : ℕ → ℕ
  snapshotMs : ℕ
  nowMs : ℕ
  clock : ∀ key, (((front (route key)).filter (ShardEvent.touches key)).map ShardEvent.nowMs ++
      takenAt (route key) ::
        (((rest (route key)).filter (ShardEvent.touches key)).map ShardEvent.nowMs ++
          [nowMs])).Pairwise (· ≤ ·)
  covered : ∀ shard, ∀ event ∈ rest shard, snapshotMs ≤ event.nowMs

namespace SnapshotHistory

variable (history : SnapshotHistory) (shard : ℕ)

def atSnapshot : ShardState := run (.fresh shard) (history.front shard)

def final : ShardState := run (.fresh shard) (history.front shard ++ history.rest shard)

def snapshot : Except Unit LoadedSnapshot := collectSnapshot
    ((List.range history.shardCount).map fun shard =>
      (history.atSnapshot shard).map.trySnapshotEntries {} (history.takenAt shard))
    history.snapshotMs

/-- What the snapshot holds when the shards have answered. -/
def taken : LoadedSnapshot where
  timestampMs := history.snapshotMs
  entries := ((List.range history.shardCount).map fun shard =>
    (history.atSnapshot shard).map.residentSnapshot (history.takenAt shard)).flatten

/-- The log interleaves the records of the shards in any way that keeps the order of each. -/
def Logged (records : List MutationRecord) : Prop := ∀ shard, (history.final shard).wal =
    some (records.filter fun record => decide (record.shardId = shard))

theorem fresh_plain : Plain (ShardState.fresh shard).map :=
  ⟨⟨rfl, rfl, rfl⟩, FlatMapCall.empty_accounted, fun _ _ h => by cases h⟩

theorem trySnapshotEntries_eq {map : FlatMap} (h : Quiet map) (nowMs : ℕ) :
    map.trySnapshotEntries {} nowMs = .ok (map.residentSnapshot nowMs) := by
  unfold trySnapshotEntries
  rw [h.no_remote]
  change Except.ok (map.residentSnapshot nowMs ++ []) = _
  rw [append_nil]

theorem mapM_id_ok (parts : List (List StoredEntry)) :
    (parts.map (.ok : List StoredEntry → Except Unit (List StoredEntry))).mapM id =
      .ok parts := by
  induction parts with
  | nil => rfl
  | cons part parts ih =>
    rw [map_cons, mapM_cons, ih]
    rfl

theorem snapshot_eq : history.snapshot = .ok history.taken := by
  have hanswers : ((List.range history.shardCount).map fun shard =>
      (history.atSnapshot shard).map.trySnapshotEntries {} (history.takenAt shard)) =
      ((List.range history.shardCount).map fun shard =>
        (history.atSnapshot shard).map.residentSnapshot (history.takenAt shard)).map .ok := by
    rw [map_map]
    apply map_congr_left
    intro shard _
    have hplain := (run_spec (history.front shard) (.fresh shard) [] (fresh_plain shard) rfl).1
    exact trySnapshotEntries_eq hplain.toQuiet _
  rw [snapshot, collectSnapshot, hanswers, mapM_id_ok]
  rfl

theorem cellEvents_append (key : Bytes) (front rest : List ShardEvent) :
    cellEvents key (front ++ rest) = cellEvents key front ++ cellEvents key rest := by
  simp only [cellEvents, filter_append, map_append]

theorem cellEvents_times (key : Bytes) (events : List ShardEvent) :
    (cellEvents key events).map time =
      (events.filter (ShardEvent.touches key)).map ShardEvent.nowMs := by
  rw [cellEvents, map_map]
  rfl

/-- The cell of a key in any shard, after any part of its history. -/
theorem run_fresh_view (events : List ShardEvent) (key : Bytes) :
    (run (.fresh shard) events).map.view key =
      (CellEvent.run redate entryLifetime (cellEvents key events) none).1 := by
  obtain ⟨_, _, added, _, _, hkeys⟩ := run_spec events (.fresh shard) [] (fresh_plain shard) rfl
  exact (hkeys key).1

/-- A shard holds nothing under the keys of other shards. -/
theorem atSnapshot_view_other {shard : ℕ} {key : Bytes} (hshard : shard ≠ history.route key) :
    (history.atSnapshot shard).map.view key = none := by
  rw [atSnapshot, run_fresh_view]
  apply run_silent
  intro cellEvent hcell live
  obtain ⟨event, hevent, rfl⟩ := mem_map.mp hcell
  obtain ⟨hmem, htouched⟩ := mem_filter.mp hevent
  obtain ⟨turn, nowMs, outside⟩ := event
  cases turn with
  | maintenance => rfl
  | execute op =>
    have hkey : op.key = key := of_decide_eq_true htouched
    have hroute := history.routed shard _ (mem_append_left _ hmem) op rfl
    rw [hkey] at hroute
    exact absurd hroute.symm hshard

theorem flatten_map_single {α : Type} {f : ℕ → List α} {chosen : ℕ} :
    ∀ {indices : List ℕ}, indices.Nodup → chosen ∈ indices →
      (∀ index, index ≠ chosen → f index = []) → (indices.map f).flatten = f chosen := by
  intro indices
  induction indices with
  | nil => exact fun _ hmem => absurd hmem not_mem_nil
  | cons index indices ih =>
    intro hnodup hmem hother
    obtain ⟨hfresh, hrest⟩ := nodup_cons.mp hnodup
    rw [map_cons, flatten_cons]
    by_cases hindex : index = chosen
    · subst hindex
      have hnone : (indices.map f).flatten = [] := by
        apply flatten_eq_nil_iff.mpr
        intro part hpart
        obtain ⟨other, hmember, rfl⟩ := mem_map.mp hpart
        exact hother other fun h => hfresh (h ▸ hmember)
      rw [hnone, append_nil]
    · have hlater : chosen ∈ indices := (mem_cons.mp hmem).resolve_left (Ne.symm hindex)
      rw [hother index hindex, nil_append, ih hrest hlater hother]

/-- The snapshot holds, under a key, what was live in its shard. -/
theorem taken_entryOf (key : Bytes) : history.taken.entryOf key =
      entryLifetime.purge (history.takenAt (history.route key))
        ((history.atSnapshot (history.route key)).map.view key) := by
  have hmine : entriesOf key history.taken.entries =
      (entryLifetime.purge (history.takenAt (history.route key))
        ((history.atSnapshot (history.route key)).map.view key)).toList := by
    rw [taken, entriesOf_flatten, map_map, ← entriesOf_residentSnapshot]
    apply flatten_map_single nodup_range (mem_range.mpr (history.route_lt key))
    intro shard hshard
    rw [Function.comp_apply, entriesOf_residentSnapshot, history.atSnapshot_view_other hshard]
    rfl
  have hloaded := foldl_insert_lookup key history.taken.entries ∅
  rw [hmine] at hloaded
  refine hloaded.trans ?_
  cases entryLifetime.purge (history.takenAt (history.route key))
    ((history.atSnapshot (history.route key)).map.view key) <;> rfl

variable {history}

/-- The records of a key in the log are those its shard wrote. -/
theorem Logged.recordsOf_eq {records : List MutationRecord} (h : history.Logged records)
    (key : Bytes) :
    stamped (recordsOf key records) = (CellEvent.run redate entryLifetime
        (cellEvents key (history.front (history.route key) ++ history.rest (history.route key)))
        none).2 := by
  obtain ⟨_, _, added, hwal, _, hkeys⟩ := run_spec
    (history.front (history.route key) ++ history.rest (history.route key))
    (.fresh (history.route key)) [] (fresh_plain _) rfl
  have hadded : added =
      records.filter fun record => decide (record.shardId = history.route key) := by
    have hsame := hwal.symm.trans (h (history.route key))
    exact Option.some.inj hsame
  refine Eq.trans ?_ (hkeys key).2
  rw [hadded]
  congr 1
  rw [recordsOf, recordsOf, filter_filter]
  apply filter_congr
  intro record hrecord
  by_cases hkey : record.key = key
  · -- A record is in its shard's log, so an operation on its key was routed to that shard.
    obtain ⟨_, _, own, hown, howned, _⟩ := run_spec
      (history.front record.shardId ++ history.rest record.shardId)
      (.fresh record.shardId) [] (fresh_plain _) rfl
    have hsame : own = records.filter fun other => decide (other.shardId = record.shardId) :=
      Option.some.inj (hown.symm.trans (h record.shardId))
    have hmem : record ∈ own := by
      rw [hsame]
      exact mem_filter.mpr ⟨hrecord, decide_eq_true rfl⟩
    obtain ⟨_, event, hevent, op, hturn, hop⟩ := howned record hmem
    have hroute := history.routed record.shardId event hevent op hturn
    rw [hop, hkey] at hroute
    simp [hkey, hroute]
  · simp [hkey]

theorem stamped_replayable (cutoff : ℕ) (records : List MutationRecord) :
    stamped (replayable cutoff records) = since cutoff (stamped records) := by
  rw [stamped, replayable, since, stamped, filter_map]
  rfl

/-- What replay leaves under a key, in terms of the key's stamped edits. -/
theorem recovered_eq_replay (snapshot : LoadedSnapshot) (records : List MutationRecord)
    (key : Bytes) :
    ((applySnapshot {} snapshot).replayRecords records).entries.lookup key =
      replay redate (since snapshot.timestampMs
        (stamped (recordsOf key records))) (snapshot.entryOf key) := by
  rw [replayRecords_lookup_foldl, recordsOf_replayable, ← stamped_replayable,
    replay, edits, stamped, map_map]
  rfl

/-- Loading the snapshot and replaying the log gives, under every key, exactly
what is live at the end of the history: the same keys, values and deadlines. -/
theorem recovery_refines_history (history : SnapshotHistory) (segments : List Segment)
    (records : List MutationRecord) (hread : readAll segments = .ok records)
    (hlogged : history.Logged records) :
    ∃ snapshot recovery, history.snapshot = .ok snapshot ∧
      loadEnabled (some snapshot) segments = .ok recovery ∧
      ∀ key, (openShard history.route recovery (history.route key) history.nowMs).view key =
        entryLifetime.purge history.nowMs ((history.final (history.route key)).map.view key) := by
  refine ⟨history.taken, (applySnapshot {} history.taken).replayRecords records,
    history.snapshot_eq, ?_, ?_⟩
  · rw [loadEnabled, hread]
    rfl
  · intro key
    have hkeyed := wellKeyed_replayRecords records (wellKeyed_applySnapshot history.taken)
    refine (openShard_view hkeyed history.route history.nowMs key).trans ?_
    rw [recovered_eq_replay, history.taken_entryOf, hlogged.recordsOf_eq, atSnapshot, final,
      run_fresh_view, run_fresh_view, cellEvents_append]
    apply replay_over_snapshot
    · rw [cellEvents_times, cellEvents_times]
      exact history.clock key
    · intro cellEvent hcell
      obtain ⟨event, hevent, rfl⟩ := mem_map.mp hcell
      exact history.covered _ event (mem_filter.mp hevent).1

/-- One shard: a write before the snapshot, a new deadline after it. -/
def sample : SnapshotHistory where
  route _ := 0
  shardCount := 1
  route_lt _ := Nat.zero_lt_one
  front shard := if shard = 0 then
    [{ turn := .execute (.set [107] (.inline [1]) none), nowMs := 3 }] else []
  rest shard := if shard = 0 then
    [{ turn := .execute (.expire [107] (some 9)), nowMs := 5 }] else []
  routed := by
    intro shard event hevent
    by_cases hshard : shard = 0
    · exact fun _ _ => hshard.symm
    · simp [hshard] at hevent
  takenAt _ := 4
  snapshotMs := 4
  nowMs := 6
  clock := by
    intro key
    have hall : List.Pairwise (· ≤ ·) ([3] ++ 4 :: ([5] ++ [6]) : List ℕ) := by decide
    refine hall.sublist
      (List.Sublist.append ?_ (List.Sublist.cons_cons 4 (List.Sublist.append ?_ ?_)))
    · exact (List.filter_sublist).map ShardEvent.nowMs
    · exact (List.filter_sublist).map ShardEvent.nowMs
    · exact List.Sublist.refl _
  covered := by
    intro shard event hevent
    by_cases hshard : shard = 0
    · simp only [hshard, if_true, List.mem_singleton] at hevent
      rw [hevent]
      decide
    · simp [hshard] at hevent

def sampleRecords : List MutationRecord :=
  [{ shardId := 0, sequence := 1, timestampMs := 3, op := .set, key := [107], value := [1],
     expireAtMs := none, governance := none },
    { shardId := 0, sequence := 2, timestampMs := 5, op := .expire, key := [107], value := [],
      expireAtMs := some 9, governance := none }]

theorem sample_logged : sample.Logged sampleRecords := by
  intro shard
  by_cases hshard : shard = 0
  · subst hshard
    decide
  · have hnone : sampleRecords.filter (fun record => decide (record.shardId = shard)) = [] := by
      simp [sampleRecords, Ne.symm hshard]
    rw [hnone]
    simp only [final, sample, if_neg hshard]
    rfl

theorem recovery_refines_history_sample : ∃ snapshot recovery, sample.snapshot = .ok snapshot ∧
      loadEnabled (some snapshot) [.ok sampleRecords] = .ok recovery ∧
      ∀ key, (openShard sample.route recovery (sample.route key) sample.nowMs).view key =
        entryLifetime.purge sample.nowMs ((sample.final (sample.route key)).map.view key) :=
  recovery_refines_history sample [.ok sampleRecords] sampleRecords rfl sample_logged

end SnapshotHistory
end ShardKv
