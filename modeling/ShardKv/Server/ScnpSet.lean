import ShardKv.Server.ScnpGet

/-!
# SET over the native protocol and over RESP

A native SET carries the hash of its key, which chooses the shard and the place in
the table; which writer takes it depends on the flags of the frame, on the worker
that received it and on the build. A RESP request computes the hash itself. The
embedding follows a store that routes by full keys. What lies beside the string
tables comes in as an answer with each request; an eviction by a memory limit is a
request of its own.
-/
namespace ShardKv

def mutationRejected : String := "ERR mutation rejected by an installed storage extension"

inductive SetAnswer
  | ok
  | null
  | error (message : String)
  deriving DecidableEq

structure HashedConfig extends FullKeyConfig where
  build : ServerBuild
  /-- The shards with a memory limit or an eviction policy. -/
  limited : ℕ → Bool := fun _ => false

/-- Objects of the store, as far as a string request asks for them. -/
structure Beside where
  hasRedisObjects : Bool := false
  shardHasObjects : Bool := false
  /-- An object or a pinned vector of the same key. -/
  objectExists : Bool := false
  objectExpiry : Option (Option ℕ) := none

/-- An entry is found by its stored hash and its key together, so the entries of a shard that
were stored under one hash form a table of their own. -/
structure HashedStore where
  tables : ℕ → ℕ → FlatMap := fun _ _ => {}

namespace HashedStore

variable (config : HashedConfig) (store : HashedStore)
  (shardId keyHash : ℕ) (key value : Bytes) (ttlMs : Option ℕ) (nowMs : ℕ)

/-- A write to the table of a shard and a hash. -/
def modify (hash : ℕ) (change : FlatMap → FlatMap) : HashedStore where
  tables := Function.update store.tables shardId
    (Function.update (store.tables shardId) hash (change (store.tables shardId hash)))

def writeNowMs : ℕ :=
  if ttlMs.isSome || config.limited shardId then nowMs else 0

def set : HashedStore :=
  if !config.pointMutationIsAccepted key value.length none then store
  else
    let route := config.routeKey key
    store.modify route.shardId route.keyHash fun map =>
      map.setBytesHashedWithGovernanceOption {} key value none (deadlineAfter nowMs ttlMs) nowMs

/-- The slice write at a place that the hash chooses. -/
def setSliceAt (hash : ℕ) (key value : Bytes) (ttlMs : Option ℕ) (nowMs : ℕ) : HashedStore :=
  let nowMs := writeNowMs config shardId ttlMs nowMs
  store.modify shardId hash fun map =>
    map.setSliceHashed {} key value (deadlineAfter nowMs ttlMs) nowMs

def setSlicePrehashed : HashedStore :=
  if !config.pointMutationIsAccepted key value.length none then store
  else store.setSliceAt config (config.routeHash keyHash) keyHash key value ttlMs nowMs

/-- With more than one shard the lock-free build computes the route of the key. -/
def setSingleThreadedHashed : HashedStore :=
  if !config.pointMutationIsAccepted key value.length none then store
  else if !config.build.lockFree then store.setSlicePrehashed config keyHash key value ttlMs nowMs
  else if config.shardCount = 1 then
    if ttlMs.isNone && !config.limited 0 then
      store.modify 0 keyHash (·.setSliceHashedTaggedNoTtlHot key value)
    else store.setSliceAt config 0 keyHash key value ttlMs nowMs
  else
    let route := config.routeKey key
    store.setSliceAt config route.shardId route.keyHash key value ttlMs nowMs

def setSingleThreaded : HashedStore :=
  if !config.build.lockFree then store.set config key value ttlMs nowMs
  else store.setSingleThreadedHashed config (config.hashKey key) key value ttlMs nowMs

def setSingleThreadedHashedTaggedNoTtlHot : HashedStore :=
  if !config.pointMutationIsAccepted key value.length none then store
  else if !config.build.lockFree then store.setSlicePrehashed config keyHash key value none nowMs
  else store.modify 0 keyHash (·.setSliceHashedTaggedNoTtlHot key value)

/-- The writers of a worker that owns the shard; the lock-free build takes the hot one. -/
def setSliceHashedTaggedOwnedShardNoTtl (beside : Beside) : Bool × HashedStore :=
  if !config.pointMutationIsAccepted key value.length none then (false, store)
  else if !decide (shardId < config.shardCount) then (false, store)
  else if config.build.redis && beside.shardHasObjects then (false, store)
  else if config.limited shardId then (false, store)
  else if config.routeHash keyHash ≠ shardId ∨ (pointWriteSessionStoragePrefix key).isSome then
    (false, store)
  else
    (true, store.modify shardId keyHash fun map =>
      if config.build.lockFree then map.setSliceHashedTaggedNoTtlHot key value
      else map.setSliceHashedTaggedNoTtlLocal key value)

/-- `SET` with `KEEPTTL`; an object of the key lends its deadline. -/
def setSliceKeepTtl (beside : Beside) (nowMs : ℕ) : HashedStore :=
  if !config.pointMutationIsAccepted key value.length none then store
  else
    let route := config.routeKey key
    store.modify route.shardId route.keyHash fun map =>
      let (expiry, map) :=
        match beside.objectExpiry with
        | some expiry => (some expiry, map)
        | none => map.entryExpireAtForKeepTtlHashed key nowMs
      map.setSliceHashed {} key value expiry.join nowMs

end HashedStore

/-- A complete SET frame whose length fields fit. -/
structure ScnpSetFrame where
  flags : ScnpFlags
  keyHash : ℕ
  routeShard : ℕ
  keyTag : ℕ
  key : Bytes
  value : Bytes

inductive SetScnpPath
  | fullKeyTaggedOwnedShard
  | fullKeyTagged
  | fullKey
  | generic
  deriving DecidableEq

namespace ScnpSetFrame

variable {config : HashedConfig} (ctx : ScnpContext config.toEmbeddedConfig)
  (store : HashedStore) (beside : Beside) (nowMs : ℕ) (frame : ScnpSetFrame)

def select : SetScnpPath :=
  if frame.flags = ScnpGetFrame.scnpFullKeyTaggedFlags ∧ ctx.ownedShardId.isSome ∧
      beside.hasRedisObjects = false then
    .fullKeyTaggedOwnedShard
  else if frame.flags = ScnpGetFrame.scnpFullKeyTaggedFlags ∧ ctx.singleThreaded then
    .fullKeyTagged
  else if frame.flags = ScnpGetFrame.scnpFullKeyFlags ∧ ctx.singleThreaded then .fullKey
  else .generic

def isAccepted (config : HashedConfig) : Bool :=
  config.pointMutationIsAccepted frame.key frame.value.length none

def tryExecuteFullKey (config : HashedConfig) : SetAnswer × HashedStore :=
  if !frame.isAccepted config then (.error mutationRejected, store)
  else if beside.hasRedisObjects then (.ok, store.set config frame.key frame.value none nowMs)
  else
    (.ok, store.setSingleThreadedHashed config frame.keyHash frame.key frame.value none nowMs)

def tryExecuteFullKeyTaggedOwnedShard : SetAnswer × HashedStore :=
  if !frame.isAccepted config then (.error mutationRejected, store)
  else if !ctx.requestMatchesOwnedShard frame.routeShard frame.keyHash then
    (.error routeShardMismatch, store)
  else
    match store.setSliceHashedTaggedOwnedShardNoTtl config frame.routeShard frame.keyHash frame.key
        frame.value beside with
    | (true, store) => (.ok, store)
    | (false, store) =>
      (.ok, store.setSlicePrehashed config frame.keyHash frame.key frame.value none nowMs)

def tryExecuteFullKeyTagged (config : HashedConfig) : SetAnswer × HashedStore :=
  if !frame.isAccepted config then (.error mutationRejected, store)
  else if beside.hasRedisObjects then (.ok, store.set config frame.key frame.value none nowMs)
  else
    (.ok, store.setSingleThreadedHashedTaggedNoTtlHot config frame.keyHash frame.key frame.value
      nowMs)

/-- `set_prehashed` of the generic path. -/
def tryExecuteGeneric : SetAnswer × HashedStore :=
  if !frame.isAccepted config then (.error mutationRejected, store)
  else if beside.hasRedisObjects then (.ok, store.set config frame.key frame.value none nowMs)
  else if config.build.lockFree && ctx.singleThreaded then
    (.ok, store.setSingleThreadedHashed config frame.keyHash frame.key frame.value none nowMs)
  else (.ok, store.setSlicePrehashed config frame.keyHash frame.key frame.value none nowMs)

def tryExecuteScnp : SetAnswer × HashedStore :=
  match frame.select ctx beside with
  | .fullKeyTaggedOwnedShard => frame.tryExecuteFullKeyTaggedOwnedShard ctx store beside nowMs
  | .fullKeyTagged => frame.tryExecuteFullKeyTagged store beside nowMs config
  | .fullKey => frame.tryExecuteFullKey store beside nowMs config
  | .generic => frame.tryExecuteGeneric ctx store beside nowMs

/-- `set_decoded` of a frame without a hash. -/
def executeDecoded : SetAnswer × HashedStore :=
  if !frame.isAccepted config then (.error mutationRejected, store)
  else if beside.hasRedisObjects then (.ok, store.set config frame.key frame.value none nowMs)
  else if config.build.lockFree && ctx.singleThreaded then
    (.ok, store.setSingleThreaded config frame.key frame.value none nowMs)
  else (.ok, store.set config frame.key frame.value none nowMs)

/-- A frame with a hash goes to the native writers, one without is decoded; a worker that owns a
shard looks at the route of the key then. Unknown flags end the connection. -/
def execute : SetAnswer × HashedStore :=
  if frame.flags.other then (.error "unsupported fast flags", store)
  else if frame.flags.keyHash then frame.tryExecuteScnp ctx store beside nowMs
  else if ctx.ownedShardId.any fun ownedShardId =>
      decide ((config.routeKey frame.key).shardId ≠ ownedShardId) then
    (.error routeShardMismatch, store)
  else frame.executeDecoded ctx store beside nowMs

end ScnpSetFrame

inductive SetCondition
  | always
  | nx
  | xx
  deriving DecidableEq

def SetCondition.allows : SetCondition → Bool → Bool
  | .always, _ => true
  | .nx, present => !present
  | .xx, present => present

structure SetOptions where
  ttlMs : Option ℕ := none
  condition : SetCondition := .always
  keepTtl : Bool := false
  exclusive : keepTtl = true → ttlMs = none := by simp

namespace HashedStore

variable (config : HashedConfig) (store : HashedStore)

/-- The table that a RESP request for a key looks into. -/
def tableOf (key : Bytes) : FlatMap :=
  store.tables (config.routeKey key).shardId (config.routeKey key).keyHash

def «exists» (key : Bytes) (beside : Beside) (nowMs : ℕ) : Bool :=
  beside.objectExists || ((store.tableOf config key).getSharedByTtl key nowMs).isSome

def respSet (key value : Bytes) (options : SetOptions) (beside : Beside) (nowMs : ℕ) :
    SetAnswer × HashedStore :=
  if !options.condition.allows (store.exists config key beside nowMs) then (.null, store)
  else if !config.pointMutationIsAccepted key value.length none then
    (.error mutationRejected, store)
  else if options.keepTtl then (.ok, store.setSliceKeepTtl config key value beside nowMs)
  else (.ok, store.setSlicePrehashed config (config.hashKey key) key value options.ttlMs nowMs)

/-- The string first, then what else the key may be. -/
def respGet (key : Bytes) (beside : Beside) (nowMs ownerMinLen : ℕ) : GetAnswer :=
  match (store.tableOf config key).tryWithResponseValueBytes {} key nowMs ownerMinLen with
  | .ok (some value) => respValue config.build value
  | .ok none => if beside.objectExists then .error wrongtypeMessage else .null
  | .error _ => .error overflowReadFailed

end HashedStore
end ShardKv
