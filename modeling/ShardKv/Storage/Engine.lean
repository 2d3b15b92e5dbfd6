import ShardKv.Storage.FlatMapRead

/-!
# The shard worker of the engine

Each shard is owned by one worker. It executes operations at the time its clock
shows, appends a record of every mutation to the write-ahead log when there is
one, and sweeps expired entries between operations. Appends succeed and nothing
is lost on the way to the log; its encoding is not part of the embedding.
-/
namespace ShardKv

structure StoredEntry where
  key : Bytes
  value : Bytes
  expireAtMs : Option ℕ
  governance : Option Bytes
  deriving DecidableEq

inductive MutationOp
  | set
  | del
  | expire
  deriving DecidableEq

structure MutationRecord where
  shardId : ℕ
  sequence : ℕ
  timestampMs : ℕ
  op : MutationOp
  key : Bytes
  value : Bytes
  expireAtMs : Option ℕ
  governance : Option Bytes
  deriving DecidableEq

inductive ExpirationChange
  | keep
  | expireAt (expireAtMs : ℕ)
  | persist
  deriving DecidableEq

def ExpirationChange.expireAtMs : ExpirationChange → Option ℕ
  | .keep => none
  | .persist => none
  | .expireAt expireAtMs => some expireAtMs

inductive ShardValue
  | inline (value : Bytes)
  | shared (value : Bytes)

def ShardValue.intoShared : ShardValue → Bytes
  | .inline value => value
  | .shared value => value

inductive ShardOperation
  | get (key : Bytes)
  | getEx (key : Bytes) (expiration : ExpirationChange)
  | set (key : Bytes) (value : ShardValue) (expireAtMs : Option ℕ)
  | delete (key : Bytes)
  | exists (key : Bytes)
  | ttl (key : Bytes) (millis : Bool)
  | expire (key : Bytes) (expireAtMs : Option ℕ)

def ShardOperation.key : ShardOperation → Bytes
  | .get key => key
  | .getEx key _ => key
  | .set key _ _ => key
  | .delete key => key
  | .exists key => key
  | .ttl key _ => key
  | .expire key _ => key

inductive ShardReply
  | value (value : Option Bytes)
  | integer (value : ℤ)
  | ok
  deriving DecidableEq

structure ShardState where
  shardId : ℕ
  map : FlatMap := {}
  /-- The records appended so far, when the log is enabled. -/
  wal : Option (List MutationRecord) := some []
  sequence : ℕ := 0

namespace ShardState

variable (state : ShardState)

/-- Appending one record under the next sequence number. -/
def append (timestampMs : ℕ) (op : MutationOp) (key value : Bytes) (expireAtMs : Option ℕ) :
    ShardState :=
  match state.wal with
  | none => state
  | some records =>
    let sequence := state.sequence + 1
    { state with
      sequence
      wal := some (records ++ [{
        shardId := state.shardId, sequence, timestampMs, op, key, value, expireAtMs,
        governance := none }]) }

def setAndAppendWal (outside : Outside) (key : Bytes) (value : ShardValue) (expireAtMs : Option ℕ)
    (timestampMs : ℕ) : ShardState :=
  if state.wal.isSome then
    let value := value.intoShared
    let map := state.map.setBytesHashed outside key value expireAtMs timestampMs
    { state with map }.append timestampMs .set key value expireAtMs
  else
    match value with
    | .inline value =>
      { state with map := state.map.setSliceHashed outside key value expireAtMs timestampMs }
    | .shared value =>
      { state with map := state.map.setBytesHashed outside key value expireAtMs timestampMs }

def deleteAndAppendWal (key : Bytes) (timestampMs : ℕ) : Bool × ShardState :=
  let deleted := state.map.deleteHashed key
  (deleted.1, { state with map := deleted.2 }.append timestampMs .del key [] none)

def applyExpirationChange (key : Bytes) (expiration : ExpirationChange) (timestampMs : ℕ) :
    Bool × ShardState :=
  let changed := match expiration with
    | .keep => (false, state.map)
    | .expireAt expireAtMs => state.map.expire key expireAtMs timestampMs
    | .persist => state.map.persist key timestampMs
  let state := { state with map := changed.2 }
  if !changed.1 then (false, state)
  else (true, state.append timestampMs .expire key [] expiration.expireAtMs)

def execute (outside : Outside) (op : ShardOperation) (nowMs : ℕ) : ShardReply × ShardState :=
  match op with
  | .get key =>
    let read := state.map.get outside key nowMs
    (.value read.1, { state with map := read.2 })
  | .getEx key expiration =>
    let read := state.map.get outside key nowMs
    let state := { state with map := read.2 }
    if read.1.isSome ∧ expiration ≠ .keep then
      (.value read.1, (state.applyExpirationChange key expiration nowMs).2)
    else (.value read.1, state)
  | .set key value expireAtMs =>
    (.ok, state.setAndAppendWal outside key value expireAtMs nowMs)
  | .delete key =>
    let deleted := state.deleteAndAppendWal key nowMs
    (.integer (if deleted.1 then 1 else 0), deleted.2)
  | .exists key =>
    let found := state.map.exists key nowMs
    (.integer (if found.1 then 1 else 0), { state with map := found.2 })
  | .ttl key millis =>
    let ttl := if millis then state.map.ttlMillis key nowMs else state.map.ttlSeconds key nowMs
    (.integer ttl.1, { state with map := ttl.2 })
  | .expire key expireAtMs =>
    let expiration := (expireAtMs.map ExpirationChange.expireAt).getD .persist
    let changed := state.applyExpirationChange key expiration nowMs
    (.integer (if changed.1 then 1 else 0), changed.2)

end ShardState

/-- What the worker does in one turn of its loop. -/
inductive ShardTurn
  | execute (op : ShardOperation)
  | maintenance

/-- A turn with the clock reading it sees and the answers it gets from outside. -/
structure ShardEvent where
  turn : ShardTurn
  nowMs : ℕ
  outside : Outside := {}

namespace ShardState

def handle (state : ShardState) (event : ShardEvent) : ShardState :=
  match event.turn with
  | .execute op => (state.execute event.outside op event.nowMs).2
  | .maintenance =>
    { state with map := (state.map.processMaintenance event.outside event.nowMs).2 }

def run (state : ShardState) (events : List ShardEvent) : ShardState := events.foldl handle state

end ShardState

/-- A freshly started shard without a memory limit or overflow, logging to the write-ahead log. -/
def ShardState.fresh (shardId : ℕ) : ShardState := { shardId }

namespace FlatMap

def residentSnapshot (map : FlatMap) (nowMs : ℕ) : List StoredEntry :=
  map.entries.entries.filterMap fun stored =>
    if stored.2.isExpired nowMs then none
    else some {
      key := stored.1
      value := stored.2.value
      expireAtMs := stored.2.expireAtMs
      governance := stored.2.governance }

def trySnapshotEntries (map : FlatMap) (outside : Outside) (nowMs : ℕ) :
    Except Unit (List StoredEntry) := do
  let live := map.remoteEntries.entries.filter fun stored => !stored.2.isExpired nowMs
  let remote ← live.mapM fun stored =>
    match map.objectOverflow with
    | none => .error ()
    | some _ => do
      let value ← outside.getValue stored.2.object
      return {
        key := stored.1
        value
        expireAtMs := stored.2.expireAtMs
        governance := stored.2.governance }
  return map.residentSnapshot nowMs ++ remote

def fromEntries (entries : List StoredEntry) (nowMs : ℕ) : FlatMap := entries.foldl
    (fun map entry =>
      if isExpiredAt entry.expireAtMs nowMs then map
      else map.setBytesHashedWithGovernanceOption {} entry.key entry.value entry.governance
        entry.expireAtMs nowMs) {}

end FlatMap
end ShardKv
