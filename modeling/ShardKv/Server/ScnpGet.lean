import ShardKv.Storage.EmbeddedStore
import ShardKv.Storage.FlatMapHistory

/-!
# GET over the native protocol and over RESP

The native protocol carries hash, tag and length of a key and may leave out its
bytes. Which reader answers depends on the flags of the frame, on the worker that
received it and on the build. The embedding follows a store that routes by full
keys; a request looks at the clock once. A read may also bring an offloaded value
back into memory, which the answer does not show.
-/
namespace ShardKv

/-- `FC:VSET:v1` and a zero byte, the mark of vector sets. -/
def vectorSetMark : Bytes := [70, 67, 58, 86, 83, 69, 84, 58, 118, 49, 0]

def wrongtypeMessage : String := "WRONGTYPE Operation against a key holding the wrong kind of value"

def overflowReadFailed : String := "ERR object overflow read failed"

def routeShardMismatch : String := "ERR SCNP route shard mismatch"

inductive GetAnswer
  | value (value : Bytes)
  | null
  | error (message : String)
  deriving DecidableEq

inductive ScnpDispatch
  | unsupported
  | complete (answer : GetAnswer)
  deriving DecidableEq

/-- The cargo features that change a reader. -/
structure ServerBuild where
  lockFree : Bool
  redis : Bool

structure FullKeyConfig extends EmbeddedConfig where
  fullKey : routeMode = .fullKey

/-- The flags of a frame; `other` stands for all bits besides the three named ones. -/
structure ScnpFlags where
  keyHash : Bool
  routeShard : Bool
  keyTag : Bool
  other : Bool := false
  deriving DecidableEq

/-- A complete GET frame. What follows the length field is the key or nothing. -/
structure ScnpGetFrame where
  flags : ScnpFlags
  keyHash : ℕ
  routeShard : ℕ
  keyTag : ℕ
  keyLen : ℕ
  body : Bytes

/-- The worker that executes a frame on a store with this configuration. One that runs alone
may have any number of shards. -/
structure ScnpContext (config : EmbeddedConfig) where
  singleThreaded : Bool
  ownedShardId : Option ℕ
  hasQueue : Bool

def ScnpContext.requestMatchesOwnedShard {config : EmbeddedConfig} (ctx : ScnpContext config)
    (routeShard keyHash : ℕ) : Bool :=
  ctx.ownedShardId.any fun ownedShardId => routeShard = ownedShardId &&
    decide (ownedShardId < config.shardCount) && config.routeHash keyHash = ownedShardId

namespace FlatMap

variable (map : FlatMap) (outside : Outside) (key : Bytes) (nowMs : ℕ)

/-- The lookup without key bytes: the first readable entry with this hash, tag and length. -/
def getSharedValueBytesHashedTaggedNoTtl (hashKey : Bytes → ℕ) (hash keyTag keyLen : ℕ) :
    Option Bytes :=
  let same := fun key => hashKey key = hash ∧ hashKeyTagFromHash (hashKey key) = keyTag ∧
    key.length = keyLen
  (map.entries.keys.filter same).findSome? map.getRefHashedSharedNoTtl

/-- The readers that skip deadlines while there are none. -/
def getSharedByTtl : Option Bytes :=
  if map.hasNoTtlEntries then map.getRefHashedSharedNoTtl key else map.getRefHashedShared key nowMs

/-- Resident values first, then the ones that have to be fetched. -/
def tryGetValueBytes : Except Unit (Option Bytes) :=
  match map.getSharedValueBytesHashed key nowMs with
  | some value => .ok (some value)
  | none =>
    match map.prepareObjectFaultHashed outside key nowMs false with
    | (none, _) => .ok none
    | (some plan, map) =>
      (map.finishObjectFault outside plan (outside.getValue plan.object) nowMs).1

/-- `try_with_value_bytes_routed` and `try_with_shared_value_bytes_routed`. -/
def tryWithValueBytes : Except Unit (Option Bytes) :=
  match map.getSharedByTtl key nowMs with
  | some value => .ok (some value)
  | none => map.tryGetValueBytes outside key nowMs

def tryWithResponseValueBytes (ownerMinLen : ℕ) : Except Unit (Option Bytes) :=
  match map.withResponseValueBytesHashed key nowMs ownerMinLen with
  | some (value, _) => .ok (some value)
  | none => map.tryGetValueBytes outside key nowMs

end FlatMap

/-- `unwrap_or(false)`: a failed fetch counts as a miss. -/
def hitOrMiss : Except Unit (Option Bytes) → Option Bytes
  | .ok value => value
  | .error _ => none

namespace EmbeddedStore

variable (config : EmbeddedConfig) (build : ServerBuild) (store : EmbeddedStore) (outside : Outside)
  (routeHash : ℕ) (key : Bytes) (nowMs : ℕ)

def mapFor : FlatMap := (store.shards (config.routeHash routeHash)).map

def withValueBytesRouteHashed : Option Bytes :=
  hitOrMiss ((store.mapFor config routeHash).tryWithValueBytes outside key nowMs)

/-- The lock-free build looks at the only shard, then at the shard of the key, and then takes
the locked path. -/
def withValueBytesRouteHashedSingleThreaded : Option Bytes :=
  if !build.lockFree then store.withValueBytesRouteHashed config outside routeHash key nowMs
  else
    let onlyShard :=
      if config.shardCount = 1 then (store.shards 0).map.getSharedByTtl key nowMs else none
    match onlyShard.or ((store.mapFor config routeHash).getSharedByTtl key nowMs) with
    | some value => some value
    | none => store.withValueBytesRouteHashed config outside routeHash key nowMs

/-- The same with the handle of the value, whose last resort is the routed read. -/
def withSharedValueBytesRouteHashedSingleThreaded : Option Bytes :=
  if !build.lockFree then store.withValueBytesRouteHashed config outside routeHash key nowMs
  else
    let onlyShard :=
      if config.shardCount = 1 then (store.shards 0).map.getSharedByTtl key nowMs else none
    match onlyShard.or ((store.mapFor config routeHash).getSharedByTtl key nowMs) with
    | some value => some value
    | none =>
      hitOrMiss ((store.shards (config.routeKey key).shardId).map.tryGetValueBytes outside key
        nowMs)

def withSharedValueBytesFullKeySingleThreaded (keyHash : ℕ) (key : Bytes) (nowMs : ℕ) :
    Option Bytes :=
  if !build.lockFree then store.withValueBytesRouteHashed config outside keyHash key nowMs
  else
    match (store.shards 0).map.getSharedByTtl key nowMs with
    | some value => some value
    | none => hitOrMiss ((store.mapFor config keyHash).tryGetValueBytes outside key nowMs)

def getSharedValueBytesFullKeySingleThreaded : Option Bytes :=
  if !build.lockFree then none
  else if (store.shards 0).map.hasNoTtlEntries then
    (store.shards 0).map.getRefHashedSharedNoTtl key
  else (store.shards 0).map.getSharedValueBytesHashed key nowMs

def getSharedValueBytesFullKeyTaggedSingleThreaded (keyHash keyTag keyLen : ℕ) : Option Bytes :=
  if !build.lockFree then none
  else if (store.shards 0).map.hasNoTtlEntries then
    (store.shards 0).map.getSharedValueBytesHashedTaggedNoTtl config.hashKey keyHash keyTag keyLen
  else none

def withSharedValueBytesFullKeyTaggedNoTtl (keyTag keyLen : ℕ) : Option Bytes :=
  let map := store.mapFor config routeHash
  if !map.hasNoTtlEntries then none
  else map.getSharedValueBytesHashedTaggedNoTtl config.hashKey routeHash keyTag keyLen

/-- Nothing when the shortcut does not apply. -/
def withSharedValueBytesFullKeyOwnedShardNoTtl (shardId keyHash : ℕ) (key : Bytes) :
    Option (Option Bytes) :=
  if !(shardId < config.shardCount) || config.routeHash keyHash ≠ shardId then none
  else if !(store.shards shardId).map.hasNoTtlEntries then none
  else some ((store.shards shardId).map.getRefHashedSharedNoTtl key)

def withSharedValueBytesFullKeyTaggedOwnedShardNoTtl (shardId keyHash keyTag keyLen : ℕ) :
    Option (Option Bytes) :=
  if !build.lockFree then none
  else if !(shardId < config.shardCount) || config.routeHash keyHash ≠ shardId then none
  else if !(store.shards shardId).map.hasNoTtlEntries then none
  else
    some ((store.shards shardId).map.getSharedValueBytesHashedTaggedNoTtl config.hashKey keyHash
      keyTag keyLen)

end EmbeddedStore

def answerOf : Option Bytes → ScnpDispatch
  | some value => .complete (.value value)
  | none => .complete .null

inductive GetScnpPath
  | unsupported
  | fullKeyTaggedOwnedShard
  | fullKeyTagged
  | fullKey
  | generic
  deriving DecidableEq

namespace ScnpGetFrame

def scnpFullKeyFlags : ScnpFlags := { keyHash := true, routeShard := true, keyTag := false }

def scnpFullKeyTaggedFlags : ScnpFlags := { keyHash := true, routeShard := true, keyTag := true }

section

variable {config : EmbeddedConfig} (build : ServerBuild) (ctx : ScnpContext config)
  (store : EmbeddedStore) (outside : Outside) (nowMs : ℕ) (frame : ScnpGetFrame)

def select (hasRedisObjects : Bool) : GetScnpPath :=
  if hasRedisObjects then .unsupported
  else if frame.flags = scnpFullKeyTaggedFlags ∧ ctx.ownedShardId.isSome then
    .fullKeyTaggedOwnedShard
  else if frame.flags = scnpFullKeyTaggedFlags ∧ ctx.singleThreaded then .fullKeyTagged
  else if frame.flags = scnpFullKeyFlags ∧ ctx.singleThreaded then .fullKey
  else .generic

def fastGetValueInto (key : Bytes) : Option Bytes :=
  if ctx.singleThreaded then
    if ctx.hasQueue then
      store.withSharedValueBytesFullKeySingleThreaded config build outside frame.keyHash key nowMs
    else
      store.withValueBytesRouteHashedSingleThreaded config build outside frame.keyHash key nowMs
  else store.withValueBytesRouteHashed config outside frame.keyHash key nowMs

def tryExecuteFullKey : ScnpDispatch :=
  if frame.keyLen ≠ frame.body.length then .unsupported
  else
    match store.getSharedValueBytesFullKeySingleThreaded build frame.body nowMs with
    | some value => .complete (.value value)
    | none => answerOf (frame.fastGetValueInto build ctx store outside nowMs frame.body)

def hasEmbeddedKey : Bool := !frame.body.isEmpty

def tryExecuteFullKeyTagged (config : EmbeddedConfig) : ScnpDispatch :=
  if frame.hasEmbeddedKey && frame.keyLen ≠ frame.body.length then .unsupported
  else
    answerOf (store.getSharedValueBytesFullKeyTaggedSingleThreaded config build frame.keyHash
      frame.keyTag frame.keyLen)

/-- The rest of the owned-shard path, once the key bytes are needed. -/
def tryExecuteOwnedShardByKey : ScnpDispatch :=
  if !frame.hasEmbeddedKey then .unsupported
  else if ctx.ownedShardId.isNone then .unsupported
  else if !ctx.requestMatchesOwnedShard frame.routeShard frame.keyHash then
    .complete (.error routeShardMismatch)
  else
    let found :=
      if build.lockFree then none
      else
        store.withSharedValueBytesFullKeyOwnedShardNoTtl config frame.routeShard frame.keyHash
          frame.body
    match found with
    | some answer => answerOf answer
    | none =>
      answerOf (store.withSharedValueBytesRouteHashedSingleThreaded config build outside
        frame.keyHash frame.body nowMs)

def tryExecuteFullKeyTaggedOwnedShard : ScnpDispatch :=
  if frame.hasEmbeddedKey && frame.keyLen ≠ frame.body.length then .unsupported
  else if !ctx.requestMatchesOwnedShard frame.routeShard frame.keyHash then
    .complete (.error routeShardMismatch)
  else
    match store.withSharedValueBytesFullKeyTaggedOwnedShardNoTtl config build frame.routeShard
        frame.keyHash frame.keyTag frame.keyLen with
    | some answer => answerOf answer
    | none => frame.tryExecuteOwnedShardByKey build ctx store outside nowMs

def tryExecuteGeneric : ScnpDispatch :=
  if frame.body.length = 0 ∧ frame.flags.keyTag = true then
    answerOf (store.withSharedValueBytesFullKeyTaggedNoTtl config frame.keyHash frame.keyTag
      frame.keyLen)
  else if frame.body.length ≠ frame.keyLen then .unsupported
  else answerOf (frame.fastGetValueInto build ctx store outside nowMs frame.body)

def tryExecuteScnp (hasRedisObjects : Bool) : ScnpDispatch :=
  match frame.select ctx hasRedisObjects with
  | .unsupported => .unsupported
  | .fullKeyTaggedOwnedShard =>
    frame.tryExecuteFullKeyTaggedOwnedShard build ctx store outside nowMs
  | .fullKeyTagged => frame.tryExecuteFullKeyTagged build store config
  | .fullKey => frame.tryExecuteFullKey build ctx store outside nowMs
  | .generic => frame.tryExecuteGeneric build ctx store outside nowMs

end
end ScnpGetFrame

/-- In a build with Redis commands a vector set is no string. -/
def respValue (build : ServerBuild) (value : Bytes) : GetAnswer :=
  if build.redis && vectorSetMark.isPrefixOf value then .error wrongtypeMessage else .value value

/-- From `ownerMinLen` bytes on the reply shares the stored value. -/
def respGet (config : EmbeddedConfig) (build : ServerBuild) (store : EmbeddedStore)
    (outside : Outside) (nowMs ownerMinLen : ℕ) (key : Bytes) : GetAnswer :=
  match (store.shards (config.routeKey key).shardId).map.tryWithResponseValueBytes outside key
      nowMs ownerMinLen with
  | .ok (some value) => respValue build value
  | .ok none => .null
  | .error _ => .error overflowReadFailed

end ShardKv
