import ShardKv.Storage.Engine

/-!
# Snapshots, log segments and recovery

Recovery loads the latest snapshot and replays the records of all segments in
order, skipping those older than the snapshot. Pruning removes segments that
hold nothing newer than the snapshot. A segment is what its file decodes to,
which may be an error; the file format is not part of the embedding.
-/
namespace ShardKv

structure LoadedSnapshot where
  timestampMs : ℕ
  entries : List StoredEntry

/-- The decoded content of one segment file. -/
abbrev Segment := Except String (List MutationRecord)

structure RecoveryAccumulator where
  entries : FinMap Bytes StoredEntry := ∅
  snapshotTimestampMs : ℕ := 0

namespace RecoveryAccumulator

variable (recovery : RecoveryAccumulator) (record : MutationRecord)

def applySnapshot (snapshot : LoadedSnapshot) : RecoveryAccumulator where
  snapshotTimestampMs := snapshot.timestampMs
  entries := snapshot.entries.foldl (fun entries entry => entries.insert entry.key entry)
    recovery.entries

def loadSnapshot (latest : Option LoadedSnapshot) : RecoveryAccumulator :=
  match latest with
  | some snapshot => recovery.applySnapshot snapshot
  | none => recovery

def applyWrite : RecoveryAccumulator :=
  { recovery with entries := recovery.entries.insert record.key {
      key := record.key
      value := record.value
      expireAtMs := record.expireAtMs
      governance := record.governance } }

def applyExpire : RecoveryAccumulator :=
  match recovery.entries.lookup record.key with
  | none => recovery
  | some entry =>
    { recovery with
      entries := recovery.entries.insert record.key { entry with
        expireAtMs := record.expireAtMs } }

def applyCurrentRecord : RecoveryAccumulator :=
  match record.op with
  | .set => recovery.applyWrite record
  | .expire => recovery.applyExpire record
  | .del => { recovery with entries := recovery.entries.erase record.key }

def applyRecord : RecoveryAccumulator :=
  if record.timestampMs < recovery.snapshotTimestampMs then recovery
  else recovery.applyCurrentRecord record

def replayRecords (records : List MutationRecord) : RecoveryAccumulator :=
  records.foldl applyRecord recovery

end RecoveryAccumulator

/-- The records of all segments in order, or the first error. -/
def readAll : List Segment → Except String (List MutationRecord)
  | [] => .ok []
  | segment :: segments => do
    let records ← segment
    let rest ← readAll segments
    return records ++ rest

/-- Snapshot, then segments. -/
def loadEnabled (latest : Option LoadedSnapshot) (segments : List Segment) :
    Except String RecoveryAccumulator := do
  let recovery := RecoveryAccumulator.loadSnapshot {} latest
  let records ← readAll segments
  return recovery.replayRecords records

inductive SegmentPrune
  | remove
  | keep
  deriving DecidableEq

def pruneDecision (records : List MutationRecord) (snapshotTimestampMs : ℕ) : SegmentPrune :=
  match records with
  | [] => .remove
  | records =>
    if records.all fun record => decide (record.timestampMs ≤ snapshotTimestampMs) then .remove
    else .keep

/-- The segments left by the pruning loop; it stops at the first one it cannot read. -/
def pruneOldPaths (snapshotTimestampMs : ℕ) : List Segment → Except String Unit × List Segment
  | [] => (.ok (), [])
  | .error error :: segments => (.error error, .error error :: segments)
  | .ok records :: segments =>
    let rest := pruneOldPaths snapshotTimestampMs segments
    match pruneDecision records snapshotTimestampMs with
    | .remove => rest
    | .keep => (rest.1, .ok records :: rest.2)

/-- Pruning never looks at the last segment, which is the one being written. -/
def pruneThrough (segments : List Segment) (snapshotTimestampMs : ℕ) :
    Except String Unit × List Segment :=
  if segments.length ≤ 1 then (.ok (), segments)
  else
    let pruned := pruneOldPaths snapshotTimestampMs segments.dropLast
    (pruned.1, pruned.2 ++ segments.drop (segments.length - 1))

section Open

variable (route : Bytes → ℕ)

def partition (entries : List StoredEntry) (shardId : ℕ) : List StoredEntry :=
  entries.filter fun entry => decide (route entry.key = shardId)

/-- The map a shard worker starts with. -/
def openShard (recovery : RecoveryAccumulator) (shardId nowMs : ℕ) : FlatMap := FlatMap.fromEntries
    (partition route (recovery.entries.entries.map fun stored => stored.2) shardId) nowMs

end Open
end ShardKv
