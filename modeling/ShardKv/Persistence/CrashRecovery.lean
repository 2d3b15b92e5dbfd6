import ShardKv.Persistence.MergeOrder
import ShardKv.Persistence.Pruning
import ShardKv.Persistence.TornTail

/-!
# Recovery after crashes

A process may stop between any two steps of its shards and its merging thread, and its last
segment may be cut anywhere. Each process opens a segment of its own, after those it finds.
However often this happens, recovery succeeds, and it finds every key as an initial part of the
mutations of its shard in each process leaves it: those whose frames are whole.
-/
namespace ShardKv.WalState

open List WalRecordCodec RecoveryAccumulator MutationRecord
variable {config : WalConfig} {env : WalPrimitives} {route : Bytes → config.Shard}

variable (env) in
def frame (merged : MergedRecord config) : Bytes :=
  encodeFrame env merged.record config.compressWal

/-- What the length fields of a frame can hold. -/
def Framable (record : MutationRecord) : Prop :=
  record.Loggable ∧ LogEntry.rawLen record < 2 ^ 32

theorem decodeRecords_part {log : List (MergedRecord config)} {part : Bytes}
    (hlog : ∀ merged ∈ log, Framable merged.record) (hpart : part <+: log.flatMap (frame env)) :
    decodeRecords env part =
      .ok ((framesWithin (frame env) part.length log).map (·.record.withoutOrigin)) := by
  lift log to List {merged : MergedRecord config // Framable merged.record} using hlog
  have hsafe : TornTailSafe env (log.map fun merged =>
      ⟨merged.1.record, config.compressWal, merged.2.1⟩) := by
    apply tornTailSafe_of_fits
    intro entry hentry
    obtain ⟨merged, _, rfl⟩ := mem_map.mp hentry
    exact .inl merged.2.2
  have hread := hsafe.part part
  simp only [framesWithin_map, flatMap_map, map_map] at hread hpart ⊢
  exact hread hpart

variable (env route) in
/-- A process up to its crash, and what the crash leaves of its last segment. -/
structure CrashedProcess where
  events : List (WalEvent config)
  part : Bytes
  appended_framable : ∀ shard, ∀ record ∈ (run env events).appended shard,
    Framable record ∧ route record.key = shard
  part_isPrefix : part <+: (run env events).writer.current.flatMap (frame env)

namespace CrashedProcess

variable (process : CrashedProcess env route) (key : Bytes)

def state : WalState config := run env process.events

def segments : List Segment :=
  (process.state.writer.closed.map (·.flatMap (frame env)) ++ [process.part]).map
    (decodeRecords env)

/-- The records of each segment whose frames are whole. -/
def survivors : List (List (MergedRecord config)) :=
  process.state.writer.closed ++
    [framesWithin (frame env) process.part.length process.state.writer.current]

/-- Those of the key's shard. -/
def survivorsFor : List MutationRecord :=
  (process.survivors.flatten.filter (·.shard = route key)).map (·.record)

theorem survivors_isPrefix : process.survivors.flatten <+: process.state.writer.written := by
  rw [survivors, SegmentWriter.written, SegmentWriter.segments, flatten_append, flatten_append,
    prefix_append_right_inj, flatten_singleton, flatten_singleton]
  exact framesWithin_isPrefix ..

theorem survivorsFor_isPrefix :
    process.survivorsFor key <+: process.state.appended (route key) :=
  ((process.survivors_isPrefix.filter _).map _).trans
    ((flow_run env _).writtenOf_isPrefix_appended _)

theorem written_framable {merged : MergedRecord config}
    (h : merged ∈ process.state.writer.written) :
    Framable merged.record ∧ route merged.record.key = merged.shard :=
  process.appended_framable _ _ (((flow_run env _).writtenOf_isPrefix_appended _).subset
    (mem_map.mpr ⟨merged, mem_filter.mpr ⟨h, decide_eq_true rfl⟩, rfl⟩))

theorem segments_eq :
    process.segments = (process.survivors.map (map (·.record.withoutOrigin))).map .ok := by
  have hgood : ∀ log ∈ process.state.writer.segments, ∀ merged ∈ log, Framable merged.record :=
    fun log hlog merged hmerged =>
      (process.written_framable (mem_flatten.mpr ⟨log, hlog, hmerged⟩)).1
  rw [segments, survivors, map_append, map_append, map_append, map_map, map_map]
  congr 1
  · apply map_congr_left
    intro log hlog
    rw [Function.comp_apply, decodeRecords_part (hgood log (mem_append_left _ hlog))
      (prefix_refl _), framesWithin_length_flatMap]
    rfl
  · exact congrArg ([·]) (decodeRecords_part (hgood _ mem_concat_self) process.part_isPrefix)

/-- A record of the key comes from the key's shard. -/
theorem edits_eq (cutoff : ℕ) :
    (recordsOf key (replayable cutoff
      (process.survivors.flatten.map (·.record.withoutOrigin)))).map edit =
      (recordsOf key (replayable cutoff (process.survivorsFor key))).map edit := by
  simp only [recordsOf, replayable, survivorsFor, filter_map, map_map, filter_filter]
  refine congrArg (map fun merged : MergedRecord config =>
    edit merged.record) (filter_congr fun merged hmerged => ?_)
  obtain ⟨-, hshard⟩ := process.written_framable (process.survivors_isPrefix.subset hmerged)
  by_cases hkey : merged.record.key = key
  · rw [hkey] at hshard
    simp [withoutOrigin, hshard]
  · simp [withoutOrigin, hkey]

end CrashedProcess

open CrashedProcess

/-- After any number of crashes, every key is as first records of its shard in each process leave
it, over what the snapshot holds. -/
theorem recovery_after_crashes (processes : List (CrashedProcess env route))
    (latest : Option LoadedSnapshot) :
    ∃ recovery, loadEnabled latest (processes.flatMap segments) = .ok recovery ∧
      ∀ key, (∀ process ∈ processes,
          process.survivorsFor key <+: process.state.appended (route key)) ∧
        recovery.entries.lookup key = ((loadSnapshot {} latest).replayRecords
          (processes.flatMap (survivorsFor · key))).entries.lookup key := by
  have hsegments : processes.flatMap segments =
      (processes.flatMap fun process =>
        process.survivors.map (map (·.record.withoutOrigin))).map .ok := by
    rw [map_flatMap]
    exact flatMap_congr fun process _ => process.segments_eq
  refine ⟨_, by rw [loadEnabled, hsegments, readAll_map_ok]; rfl, fun key =>
    ⟨fun process _ => process.survivorsFor_isPrefix key, ?_⟩⟩
  rw [replayRecords_lookup_foldl, replayRecords_lookup_foldl]
  congr 1
  clear hsegments
  induction processes with
  | nil => rfl
  | cons process processes ih =>
    simp only [replayable, flatMap_cons, flatten_append, ← map_flatten, filter_append,
      recordsOf_append, map_append] at ih ⊢
    rw [ih]
    exact congrArg (· ++ _) (process.edits_eq key _)

def routeShard (key : Bytes) : twoShards.Shard := if key = [0] then firstShard else secondShard

theorem framable_of_shardWrites {events : List (WalEvent twoShards)}
    (hwrites : ∀ shard, ∀ record ∈ (run trivialPrimitives events).appended shard,
      ∃ sequence < 10, record = shardWrite shard sequence) :
    ∀ shard, ∀ record ∈ (run trivialPrimitives events).appended shard,
      Framable record ∧ routeShard record.key = shard := by
  intro shard record hrecord
  have hroute : ∀ shard : twoShards.Shard, routeShard [UInt8.ofNat shard] = shard := by decide
  obtain ⟨sequence, hlt, rfl⟩ := hwrites shard record hrecord
  refine ⟨⟨?_, by simp [shardWrite, LogEntry.rawLen]⟩, hroute shard⟩
  constructor <;> simp [shardWrite]
  omega

/-- The crash leaves so many bytes of the last segment. -/
def crashedAfter (events : List (WalEvent twoShards)) (size : ℕ)
    (hwrites : ∀ shard, ∀ record ∈ (run trivialPrimitives events).appended shard,
      ∃ sequence < 10, record = shardWrite shard sequence) :
    CrashedProcess trivialPrimitives routeShard where
  events
  part :=
    ((run trivialPrimitives events).writer.current.flatMap (frame trivialPrimitives)).take size
  appended_framable := framable_of_shardWrites hwrites
  part_isPrefix := take_prefix ..

def laterWrites : List (WalEvent twoShards) :=
  [.append secondShard (shardWrite secondShard 6), .flush secondShard, .send secondShard]

theorem shardWrites_of_cut : ∀ shard, ∀ record ∈ (run trivialPrimitives
      (interleavedWrites ++ replicate 10 .merge)).appended shard,
    ∃ sequence < 10, record = shardWrite shard sequence := by decide +kernel

theorem shardWrites_of_later : ∀ shard, ∀ record ∈ (run trivialPrimitives
      (laterWrites ++ replicate 4 .merge)).appended shard,
    ∃ sequence < 10, record = shardWrite shard sequence := by decide +kernel

/-- The last write of the first shard is cut. -/
def cutProcess : CrashedProcess trivialPrimitives routeShard :=
  crashedAfter _ 60 shardWrites_of_cut

def laterProcess : CrashedProcess trivialPrimitives routeShard :=
  crashedAfter _ 44 shardWrites_of_later

theorem recovery_after_crashes_cutWrite :
    ∃ recovery, loadEnabled none ([cutProcess, laterProcess].flatMap segments) = .ok recovery ∧
      (recovery.entries.lookup [0]).map (·.value) = some [3] ∧
      (recovery.entries.lookup [1]).map (·.value) = some [6] := by
  obtain ⟨recovery, hrecovery, hkeys⟩ := recovery_after_crashes [cutProcess, laterProcess] none
  refine ⟨recovery, hrecovery, ?_, ?_⟩
  · rw [(hkeys [0]).2]
    decide +kernel
  · rw [(hkeys [1]).2]
    decide +kernel

end ShardKv.WalState
