import ShardKv.Storage.EmbeddedStore

/-!
# Reads of the embedded store

A batch that is known to lie on one shard is answered in order. Any other batch is
grouped by shard, and each answer goes to the position of its key. Deadlines make
reads into writes: an expired entry is deleted on the way.
-/
namespace ShardKv

structure EmbeddedBatchReadView where
  items : List (Option Bytes)
  hitCount : ℕ := 0
  totalBytes : ℕ := 0

namespace EmbeddedBatchReadView

variable (view : EmbeddedBatchReadView)

def push : Option Bytes → EmbeddedBatchReadView
  | some value =>
    { items := view.items ++ [some value]
      hitCount := view.hitCount + 1
      totalBytes := view.totalBytes + value.length }
  | none => { view with items := view.items ++ [none] }

def recordHit (index : ℕ) (value : Bytes) :
    EmbeddedBatchReadView where
  items := view.items.set index (some value)
  hitCount := view.hitCount + 1
  totalBytes := view.totalBytes + value.length

end EmbeddedBatchReadView

namespace EmbeddedStore

variable (config : EmbeddedConfig) (store : EmbeddedStore) (shardId : ℕ)

/-- One read under the lock of its shard. -/
def readAt (read : EmbeddedShard → Option Bytes × EmbeddedShard) :
    Option Bytes × EmbeddedStore :=
  let out := read (store.shards shardId)
  (out.1, store.setShard shardId out.2)

variable (key : Bytes) (nowMs : ℕ)

def getWithRoute : Option Bytes × EmbeddedStore :=
  store.readAt (config.routeKey key).shardId fun shard =>
    if usesFlatKeyStorage config.routeMode key then
      let out := shard.map.get {} key nowMs
      (out.1, { shard with map := out.2 })
    else shard.getRefHashedSessionOrFlat key nowMs

def getViewRouted : Option Bytes × EmbeddedStore :=
  store.readAt (config.routeKey key).shardId fun shard =>
    shard.getRefHashedPublishedSessionOrFlat key nowMs

def getViewRoutedNoTtl : Option Bytes :=
  let shard := store.shards (config.routeKey key).shardId
  match shard.publishedSession key with
  | some session => shard.sessionSlots.getRefHashed session key
  | none => shard.map.lookupRefHashedLazy key

def getPreparedViewNoTtl : Option Bytes :=
  (store.shards (config.routeKey key).shardId).map.lookupRefHashedLazy key

section Loops

variable {α : Type} (read : EmbeddedShard → Bytes → Option Bytes × EmbeddedShard)
  (record : α → ℕ → Option Bytes → α)

/-- The loop over keys of one shard; a key comes with its position in the request. -/
def readKeys (shardId : ℕ) (items : List (Bytes × ℕ)) (start : α × EmbeddedStore) :
    α × EmbeddedStore :=
  items.foldl (fun out item =>
    let answer := out.2.readAt shardId (read · item.1)
    (record out.1 item.2 answer.1, answer.2)) start

/-- The loop over all shards, each with the keys that are routed to it. -/
def readGroups (keys : List Bytes) (start : α × EmbeddedStore) : α × EmbeddedStore :=
  let shardOf := fun key =>
    config.routeHash (routeHashForKey config.hashKey config.routeMode config.shift key)
  (List.range config.shardCount).foldl (fun out shardId =>
    readKeys read record shardId
      (keys.zipIdx.filter fun item => shardOf item.1 = shardId) out) start

end Loops

variable (keys : List Bytes)

def singleShardBatchRoute : Option ℕ :=
  if config.routeMode ≠ .sessionPrefix then none
  else
    match keys with
    | [] => none
    | first :: rest =>
      if rest.all fun key => sessionRoutePrefix key = sessionRoutePrefix first then
        some (config.routeHash (config.hashKey (sessionRoutePrefix first)))
      else none

def batchGet (nowMs : ℕ) : List (Option Bytes) × EmbeddedStore :=
  let read := fun shard key => EmbeddedShard.getRefHashedSessionOrFlat shard key nowMs
  if keys = [] then ([], store)
  else
    match singleShardBatchRoute config keys with
    | some shardId =>
      readKeys read (fun values _ value => values ++ [value]) shardId keys.zipIdx ([], store)
    | none =>
      readGroups config read List.set keys (List.replicate keys.length none, store)

def batchGetView (nowMs : ℕ) : EmbeddedBatchReadView × EmbeddedStore :=
  let read := fun shard key => EmbeddedShard.getRefHashedPublishedSessionOrFlat shard key nowMs
  if keys = [] then ({ items := [] }, store)
  else
    match singleShardBatchRoute config keys with
    | some shardId =>
      readKeys read (fun view _ value => view.push value) shardId keys.zipIdx
        ({ items := [] }, store)
    | none =>
      readGroups config read
        (fun view index value => (value.map (view.recordHit index)).getD view) keys
        ({ items := List.replicate keys.length none }, store)

def batchGetSessionPrehashed (session : Bytes) (keys : List Bytes) (nowMs : ℕ) :
    List (Option Bytes) × EmbeddedStore :=
  let shardId := config.routeSession session
  let active :=
    if (store.shards shardId).sessionSlots.hasSession session then some session else none
  readKeys (fun shard key => shard.getRefHashedActiveSessionOrFlat key active nowMs)
    (fun values _ value => values ++ [value]) shardId keys.zipIdx ([], store)

/-- The flat map alone. -/
def batchGetSessionRouted (keys : List Bytes) (nowMs : ℕ) :
    List (Option Bytes) × EmbeddedStore :=
  readKeys (fun shard key => shard.getRefHashedFlat key nowMs)
    (fun values _ value => values ++ [value]) shardId keys.zipIdx ([], store)

def batchGetSessionViewPrehashed (session : Bytes) (keys : List Bytes) (nowMs : ℕ) :
    EmbeddedBatchReadView × EmbeddedStore :=
  let shardId := config.routeSession session
  let active :=
    if (store.shards shardId).sessionSlots.hasSession session then some session else none
  readKeys (fun shard key => shard.getRefHashedActiveSessionOrFlat key active nowMs)
    (fun view _ value => view.push value) shardId keys.zipIdx ({ items := [] }, store)

def batchGetSessionViewPrehashedRouted (keys : List Bytes) (nowMs : ℕ) :
    EmbeddedBatchReadView × EmbeddedStore :=
  let active := (batchDerivedSessionStoragePrefix keys).filter fun session =>
    (store.shards shardId).sessionSlots.hasSession session
  readKeys (fun shard key => shard.getRefHashedActiveSessionOrFlat key active nowMs)
    (fun view _ value => view.push value) shardId keys.zipIdx ({ items := [] }, store)

end EmbeddedStore
end ShardKv
