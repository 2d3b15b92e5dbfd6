import ShardKv.Storage.EmbeddedShard

/-!
# Writes of the embedded store

The store spreads its keys over shards by their route. What lies beside the string
tables comes in as an answer with each call: whether the shard holds objects,
whether an object of the same key refuses the call, and what an installed
extension accepts. Values that are pinned as vectors live under other routes and
are left out, and so are the observers that are told of a mutation.
-/
namespace ShardKv

structure EmbeddedConfig where
  hashKey : Bytes → ℕ
  /-- There are `2 ^ shardBits` shards. -/
  shardBits : ℕ
  routeMode : EmbeddedRouteMode
  /-- What the installed extension says to a key, a value length and a metadata length. -/
  pointMutationIsAccepted : Bytes → ℕ → Option ℕ → Bool := fun _ _ _ => true

namespace EmbeddedConfig

variable (config : EmbeddedConfig)

def shardCount : ℕ := 2 ^ config.shardBits

def shift : ℕ := shiftFor config.shardBits

def routeKey (key : Bytes) : EmbeddedKeyRoute ℕ :=
  computeKeyRoute config.hashKey config.routeMode config.shift key

def routeSession (session : Bytes) : ℕ := computeSessionShard config.hashKey config.shift session

def routeHash (hash : ℕ) : ℕ := stripeIndex hash config.shift

end EmbeddedConfig

structure EmbeddedStore where
  shards : ℕ → EmbeddedShard := fun _ => {}

/-- The largest 64-bit number, where deadlines saturate. -/
def maxMillis : ℕ := 2 ^ 64 - 1

def deadlineAfter (nowMs : ℕ) (ttlMs : Option ℕ) : Option ℕ :=
  ttlMs.map fun ttl => min (nowMs + ttl) maxMillis

namespace EmbeddedStore

variable (config : EmbeddedConfig) (store : EmbeddedStore)
  (key : Bytes) (shardId : ℕ) (value : Bytes)

def setShard (shard : EmbeddedShard) : EmbeddedStore :=
  { store with shards := Function.update store.shards shardId shard }

def modifyShard (change : EmbeddedShard → EmbeddedShard) : EmbeddedStore :=
  store.setShard shardId (change (store.shards shardId))

variable (route : EmbeddedKeyRoute ℕ)

/-- The body of `set`, `set_value_bytes`, `set_routed` and their kin. -/
def setValueBytesRoutedWithGovernance (key value : Bytes)
    (governance : Option Bytes) (expireAtMs : Option ℕ) (nowMs : ℕ) : EmbeddedStore :=
  if !config.pointMutationIsAccepted key value.length (governance.map List.length) then store
  else
    let route := if route.shardId < config.shardCount then route else config.routeKey key
    store.modifyShard route.shardId fun shard =>
      let shard := shard.clearPointSession key
      { shard with
        map := shard.map.setBytesHashedWithGovernanceOption {} key value governance expireAtMs
          nowMs }

variable (ttlMs : Option ℕ)

def set (nowMs : ℕ) : EmbeddedStore :=
  store.setValueBytesRoutedWithGovernance config (config.routeKey key) key value none
    (deadlineAfter nowMs ttlMs) nowMs

def setValueBytesWithGovernance (governance : Bytes) (nowMs : ℕ) :
    EmbeddedStore :=
  store.setValueBytesRoutedWithGovernance config (config.routeKey key) key value (some governance)
    (deadlineAfter nowMs ttlMs) (if ttlMs.isSome then nowMs else 0)

/-- The slice write of the RESP fast path, with the hash of the key. -/
def setSlicePrehashed (nowMs : ℕ) : EmbeddedStore :=
  if !config.pointMutationIsAccepted key value.length none then store
  else if !canRouteWithKeyHash config.routeMode config.shardCount key then
    store.set config key value ttlMs nowMs
  else
    store.modifyShard (config.routeHash (config.hashKey key)) fun shard =>
      let nowMs := if ttlMs.isSome then nowMs else 0
      let shard := shard.clearPointSession key
      { shard with
        map := shard.map.setSliceHashed {} key value (deadlineAfter nowMs ttlMs) nowMs }

/-- `SET` with `KEEPTTL`. `objectExpiry` is the deadline of an object of the same key. -/
def setSliceKeepTtl (ownedReplacement : Bool) (objectExpiry : Option (Option ℕ)) (nowMs : ℕ) :
    EmbeddedStore :=
  if !config.pointMutationIsAccepted key value.length none then store
  else
    let owned := ownedReplacement || !canRouteWithKeyHash config.routeMode config.shardCount key
    store.modifyShard (config.routeKey key).shardId fun shard =>
      let (expiry, shard) :=
        match objectExpiry with
        | some expiry => (some expiry, shard)
        | none =>
          if (shard.sessionCopy key).isSome then (some none, shard)
          else
            let out := shard.map.entryExpireAtForKeepTtlHashed key nowMs
            (out.1, { shard with map := out.2 })
      let shard := shard.clearPointSession key
      { shard with
        map :=
          if owned then
            shard.map.setBytesHashedWithGovernanceOption {} key value none expiry.join nowMs
          else shard.map.setSliceHashed {} key value expiry.join nowMs }

/-- An edit that the extension has to accept as well. -/
def acceptedEdit (edit : Option Bytes → Except Unit Bytes) (existing : Option Bytes) :
    Except Unit (Unit × Bytes) :=
  match edit existing with
  | .error error => .error error
  | .ok value =>
    if config.pointMutationIsAccepted key value.length none then .ok ((), value)
    else .error ()

/-- The transforms behind `APPEND`, `INCR`, `SETRANGE` and others; `refused` when an object of
the same key is in the way. They look at the flat map alone. -/
def transformRawStringValueNoTtl (refused : Bool) (edit : Option Bytes → Except Unit Bytes)
    (nowMs : ℕ) : EmbeddedStore :=
  if refused then store
  else
    store.modifyShard (config.routeKey key).shardId fun shard =>
      { shard with
        map := (shard.map.transformValueHashed {} key nowMs true (acceptedEdit config key edit)).2 }

def mutateStringValueNoTtlInPlace (refused isUnique : Bool) (update : FlatMap.SliceUpdate) :
    EmbeddedStore :=
  if refused then store
  else
    store.modifyShard (config.routeKey key).shardId fun shard =>
      { shard with map := (shard.map.updateValueHashedNoTtl key isUnique update).2 }

/-- `get_mut`: nothing for a session that has a slab, nor for a protected value. -/
def getMutRouted (shard : EmbeddedShard) (key : Bytes) (nowMs : ℕ) :
    Option (Option ℕ) × EmbeddedShard :=
  if !usesFlatKeyStorage config.routeMode key && (shard.publishedSession key).isSome then
    (none, shard)
  else if shard.map.isValueProtectedHashed key nowMs then (none, shard)
  else
    let out := shard.map.entryExpireAtHashed key nowMs
    (out.1, { shard with map := out.2 })

/-- `get_mut` and then `set` on the guard, which looks at the clock again. -/
def getMutSet (nowMs setMs writeMs : ℕ) : EmbeddedStore :=
  store.modifyShard (config.routeKey key).shardId fun shard =>
    match getMutRouted config shard key nowMs with
    | (none, shard) => shard
    | (some expireAtMs, shard) =>
      if !config.pointMutationIsAccepted key value.length none then shard
      else if isExpiredAt expireAtMs setMs then (shard.removeValueHashed key writeMs).2
      else
        shard.setValueBytesHashed key config.routeMode value expireAtMs
          (if expireAtMs.isSome then writeMs else 0)

def getMutRemove (nowMs removeMs : ℕ) : EmbeddedStore :=
  store.modifyShard (config.routeKey key).shardId fun shard =>
    match getMutRouted config shard key nowMs with
    | (none, shard) => shard
    | (some _, shard) => (shard.removeValueHashed key removeMs).2

def setSliceHashedTaggedOwnedShardNoTtl (keyHash : ℕ) (key value : Bytes) (shardHasObjects : Bool) :
    Bool × EmbeddedStore :=
  if !config.pointMutationIsAccepted key value.length none then (false, store)
  else if !(shardId < config.shardCount) then (false, store)
  else if shardHasObjects then (false, store)
  else
    match config.routeMode with
    | .fullKey =>
      if config.routeHash keyHash ≠ shardId ∨ (pointWriteSessionStoragePrefix key).isSome then
        (false, store)
      else
        (true, store.modifyShard shardId fun shard =>
          { shard with map := shard.map.setSliceHashedTaggedNoTtlLocal key value })
    | .sessionPrefix =>
      match pointWriteSessionStoragePrefix key with
      | none => (false, store)
      | some session =>
        let route := config.routeKey key
        if route.shardId ≠ shardId ∨ route.keyHash ≠ keyHash then (false, store)
        else
          (true, store.modifyShard shardId fun shard =>
            shard.setSessionSliceHashedNoTtl key session value)
    | .overflowSlot =>
      let route := config.routeKey key
      if route.shardId ≠ shardId ∨ route.keyHash ≠ keyHash then (false, store)
      else
        (true, store.modifyShard shardId fun shard =>
          { shard with map := shard.map.setSliceHashedTaggedNoTtlLocal key value })

/-- The caller has checked that the session routes to the shard. -/
def setSessionSliceHashedOwnedShardNoTtlPrevalidated (session key value : Bytes)
    (shardHasObjects : Bool) : Bool × EmbeddedStore :=
  if !config.pointMutationIsAccepted key value.length none then (false, store)
  else if !(shardId < config.shardCount) then (false, store)
  else if shardHasObjects then (false, store)
  else
    (true, store.modifyShard shardId fun shard =>
      shard.setSessionSliceHashedNoTtl key session value)

/-- Only while the shard holds objects are both copies deleted. -/
def deleteRouted (key : Bytes) (shardHasObjects : Bool) :
    Bool × EmbeddedStore :=
  let route := if route.shardId < config.shardCount then route else config.routeKey key
  let shard := store.shards route.shardId
  let (deletedSession, slots) :=
    match derivedSessionStoragePrefix key with
    | some session => shard.sessionSlots.deleteHashed session key
    | none => (false, shard.sessionSlots)
  if !shardHasObjects && deletedSession then
    (true, store.setShard route.shardId { shard with sessionSlots := slots })
  else
    let (deletedMap, map) := shard.map.deleteHashed key
    (deletedSession || deletedMap, store.setShard route.shardId { map, sessionSlots := slots })

def delete (shardHasObjects : Bool) : Bool × EmbeddedStore :=
  if !config.pointMutationIsAccepted key 0 none then (false, store)
  else store.deleteRouted config (config.routeKey key) key shardHasObjects

def batchSetSessionSlicesRoutedNoTtl (items : List (Bytes × Bytes)) : EmbeddedStore :=
  store.modifyShard shardId fun shard =>
    items.foldl (fun shard item =>
      { shard with map := shard.map.setSliceHashed {} item.1 item.2 none 0 }) shard

def batchSetSessionSlicesNoTtl (session : Bytes) (items : List (Bytes × Bytes)) : EmbeddedStore :=
  store.modifyShard (config.routeSession session) fun shard =>
    items.foldl (fun shard item =>
      { map := (shard.map.deleteHashed item.1).2
        sessionSlots := shard.sessionSlots.setSliceHashed session item.1 item.2 }) shard

end EmbeddedStore
end ShardKv
