import ShardKv.Objects.BucketCommands
import ShardKv.Storage.Routing

/-!
# The object store

A shard spreads its objects over 256 buckets and keeps one counter beside them.
No bucket touches the counter: the caller compares what the key held before a
write with what the write reports, and adjusts the counter itself.

String values live in other tables. What the object store asks them, and what
the installed extensions accept, are answers given with the call. A call reads
the wall clock several times, and nothing makes two readings ordered.
-/
namespace ShardKv

variable {ι β σ : Type} [DecidableEq ι] [LinearOrder β] [LinearOrder σ]

def objectBuckets : ℕ := 256

/-- The low byte of the key hash. -/
def bucketIndex (keyHash : ℕ) : Fin objectBuckets := ⟨keyHash % 256, Nat.mod_lt _ (by decide)⟩

/-- Where a key lives, and where its value would live as a vector set. -/
structure ObjectRouting (ι β : Type) where
  routeKey : β → EmbeddedKeyRoute ι
  routeVectorKey : β → EmbeddedKeyRoute ι

/-- The answers of the string tables and of the installed extensions during one call. -/
structure ObjectSurroundings (β : Type) where
  stringExists : β → Bool := fun _ => false
  stringDeleted : β → Bool := fun _ => false
  vectorValue : β → Bool := fun _ => false
  pinnedVector : β → Bool := fun _ => false
  pointMutationIsAccepted : β → Bool := fun _ => true
  vectorMutationIsAccepted : β → Bool := fun _ => true

structure RedisObjectShard (β σ : Type) [LinearOrder β] [LinearOrder σ] where
  buckets : Fin objectBuckets → RedisObjectBucket β σ := fun _ => {}
  objectCount : ℤ := 0

structure RedisObjectStore (ι β σ : Type) [LinearOrder β] [LinearOrder σ] where
  shards : ι → RedisObjectShard β σ := fun _ => {}
  hasObjectsHint : Bool := false

inductive RedisKeyError
  | wrongType
  | missingKey
  | replicationLimit
  deriving DecidableEq

namespace RedisObjectStore

variable (store : RedisObjectStore ι β σ)

variable (shardId : ι)

def noteCreated : RedisObjectStore ι β σ :=
  let shard := store.shards shardId
  { shards := Function.update store.shards shardId
      { shard with objectCount := shard.objectCount + 1 }
    hasObjectsHint := if shard.objectCount ≤ 0 then true else store.hasObjectsHint }

def noteDeleted : RedisObjectStore ι β σ :=
  let shard := store.shards shardId
  { store with
    shards := Function.update store.shards shardId
      { shard with objectCount := shard.objectCount - 1 } }

def shardObjectCountHint : ℕ := (max (store.shards shardId).objectCount 0).toNat

def shardHasObjects : Bool := store.shardObjectCountHint shardId ≠ 0

/-- The number of keys stored in the buckets of a shard. -/
def storedKeys : ℕ := ∑ i, ((store.shards shardId).buckets i).slots.size

variable (route : EmbeddedKeyRoute ι)

def bucketAt : RedisObjectBucket β σ :=
  (store.shards route.shardId).buckets (bucketIndex route.keyHash)

def putBucket (b : RedisObjectBucket β σ) : RedisObjectStore ι β σ :=
  let shard := store.shards route.shardId
  { store with
    shards := Function.update store.shards route.shardId
      { shard with buckets := Function.update shard.buckets (bucketIndex route.keyHash) b } }

/-- Run a removal on a bucket and count it when it removed something. -/
def countRemoval (remove : RedisObjectBucket β σ → Bool × RedisObjectBucket β σ) :
    Bool × RedisObjectStore ι β σ :=
  let out := remove (store.bucketAt route)
  let store := store.putBucket route out.2
  (out.1, if out.1 then store.noteDeleted route.shardId else store)

end RedisObjectStore

namespace RedisObjectBucket

variable (b : RedisObjectBucket β σ) (key : β)

/-- `first || next`: the second removal runs only when the first took nothing away. -/
def orElse (first : Bool × RedisObjectBucket β σ)
    (next : RedisObjectBucket β σ → Bool × RedisObjectBucket β σ) :
    Bool × RedisObjectBucket β σ :=
  match first with
  | (true, b) => (true, b)
  | (false, b) => next b

/-- The clean-up before a write. -/
def purgeForWrite (nowMs : ℕ) : Bool × RedisObjectBucket β σ :=
  orElse (if b.hasExpirations then b.deleteExpired key nowMs else (false, b)) fun b =>
    b.removeExpiredHashIfEmpty key nowMs

/-- The clean-up of the deadline commands. -/
def purge (nowMs : ℕ) : Bool × RedisObjectBucket β σ :=
  orElse (b.deleteExpired key nowMs) fun b => b.removeExpiredHashIfEmpty key nowMs

/-- The clean-up that a read turns to under the write lock; `none` when there is no need. -/
def cleanUpForRead (nowMs : ℕ) : Option (RedisObjectBucket β σ → Bool × RedisObjectBucket β σ) :=
  if b.hasExpirations && b.objectIsExpired key nowMs then some fun b => b.deleteExpired key nowMs
  else if b.hashNeedsEmptyExpiryCleanup key nowMs then
    some fun b => b.removeExpiredHashIfEmpty key nowMs
  else none

end RedisObjectBucket

namespace RedisObjectStore

variable (store : RedisObjectStore ι β σ) (env : ObjectSurroundings β)

section

variable (route : EmbeddedKeyRoute ι) (key : β)

def objectReadRouted (nowMs : ℕ) (op : RedisObjectBucket β σ → RedisObjectResult β) :
    RedisObjectResult β × RedisObjectStore ι β σ :=
  match (store.bucketAt route).cleanUpForRead key nowMs with
  | some remove =>
    let store := (store.countRemoval route remove).2
    (if env.stringExists key then .wrongType else op (store.bucketAt route), store)
  | none =>
    let b := store.bucketAt route
    let result := op b
    if result = .wrongType || b.containsObject key then (result, store)
    else (if env.stringExists key then .wrongType else result, store)

/-- `object_read_hashed_visit` and the object half of a string lookup: `none` goes on to the
string tables. -/
def objectLookup (nowMs : ℕ) (op : RedisObjectBucket β σ → Option (RedisObjectResult β)) :
    Option (RedisObjectResult β) × RedisObjectStore ι β σ :=
  if !store.shardHasObjects route.shardId then (none, store)
  else
    match (store.bucketAt route).cleanUpForRead key nowMs with
    | some remove => (none, (store.countRemoval route remove).2)
    | none => (op (store.bucketAt route), store)

def objectWriteRouted (nowMs : ℕ) (op : RedisObjectBucket β σ → BucketWrite β σ) :
    RedisObjectResult β × RedisObjectStore ι β σ :=
  let store := (store.countRemoval route fun b => b.purgeForWrite key nowMs).2
  let b := store.bucketAt route
  let hadObject := b.containsObject key
  if !hadObject && env.stringExists key then (.wrongType, store)
  else
    let out := op b
    let store := store.putBucket route out.bucket
    match hadObject, out.changed with
    | false, true => (out.reply, store.noteCreated route.shardId)
    | true, true => (out.reply, store.noteDeleted route.shardId)
    | _, false => (out.reply, store)

def objectCreateHashed (nowMs : ℕ) (existing : RedisObjectBucket β σ → RedisObjectWriteAttempt β σ)
    (create : RedisObjectBucket β σ → RedisObjectResult β × RedisObjectBucket β σ) :
    RedisObjectResult β × RedisObjectStore ι β σ :=
  let store := (store.countRemoval route fun b => b.purgeForWrite key nowMs).2
  match existing (store.bucketAt route) with
  | .complete reply b => (reply, store.putBucket route b)
  | .missing b =>
    let store := store.putBucket route b
    if env.stringExists key then (.wrongType, store)
    else
      let out := create b
      (out.1, (store.putBucket route out.2).noteCreated route.shardId)

/-- `push_list_existing_hashed` of the store, which looks under the read lock first. -/
def pushListExistingHashed (values : List β)
    (front : Bool) (nowMs writeNowMs : ℕ) : RedisObjectResult β × RedisObjectStore ι β σ :=
  let absent := if env.stringExists key then RedisObjectResult.wrongType else .integer 0
  if values.isEmpty then (.integer 0, store)
  else if !store.shardHasObjects route.shardId then (absent, store)
  else
    let b := store.bucketAt route
    if b.hasExpirations && b.objectIsExpired key nowMs then
      (absent, (store.countRemoval route fun b => b.deleteExpired key nowMs).2)
    else if (b.lists.lookup key).isSome then
      store.objectWriteRouted env route key writeNowMs fun b =>
        b.pushListExistingHashed key values front
    else if b.hasNon key .list then (.wrongType, store)
    else (absent, store)

/-- The object half of a routed delete and of every string write over a key. -/
def deleteRoutedThen : Bool × RedisObjectStore ι β σ :=
  if store.shardHasObjects route.shardId then
    store.countRemoval route fun b => b.deleteAny key
  else (false, store)

end

variable (routing : ObjectRouting ι β) (key : β)

def deletePinnedVectorValueIfDistinct (primary : EmbeddedKeyRoute ι) (key : β) :
    Bool × RedisObjectStore ι β σ :=
  if primary.shardId = (routing.routeVectorKey key).shardId || !env.pinnedVector key then
    (false, store)
  else (true, (store.deleteRoutedThen (routing.routeVectorKey key) key).2)

def delete : Bool × RedisObjectStore ι β σ :=
  if !env.pointMutationIsAccepted key then (false, store)
  else
    let route := routing.routeKey key
    let out := store.deleteRoutedThen route key
    if out.1 || env.stringDeleted key then (true, out.2)
    else out.2.deletePinnedVectorValueIfDistinct env routing route key

def setValueBytesRouted (route : EmbeddedKeyRoute ι) (key : β) : RedisObjectStore ι β σ :=
  if !env.pointMutationIsAccepted key then store
  else
    let store := (store.deletePinnedVectorValueIfDistinct env routing route key).2
    (store.deleteRoutedThen route key).2

def setPinnedVectorValue : Except RedisKeyError Unit × RedisObjectStore ι β σ :=
  if !env.vectorMutationIsAccepted key then (.error .replicationLimit, store)
  else
    let primary := routing.routeKey key
    let vector := routing.routeVectorKey key
    let store :=
      if primary.shardId ≠ vector.shardId then (store.deleteRoutedThen primary key).2 else store
    (.ok (), store.setValueBytesRouted env routing vector key)

variable (nowMs : ℕ)

/-- The object half of `set_slice_keep_ttl`; it looks at the bucket whatever the counter says. -/
def setSliceKeepTtl : Option (Option ℕ) × RedisObjectStore ι β σ :=
  if !env.pointMutationIsAccepted key then (none, store)
  else
    let route := routing.routeKey key
    let purged := store.countRemoval route fun b => b.purge key nowMs
    let expiry :=
      if purged.1 then some none else (purged.2.bucketAt route).entryExpireAt key
    (expiry, (purged.2.countRemoval route fun b => b.deleteAny key).2)

def pinnedVectorValueExists : Bool :=
  (routing.routeKey key).shardId ≠ (routing.routeVectorKey key).shardId && env.pinnedVector key

def keyExists (nowMs liveNowMs : ℕ) : Bool × RedisObjectStore ι β σ :=
  let route := routing.routeKey key
  let strings := env.stringExists key || pinnedVectorValueExists env routing key
  if !store.shardHasObjects route.shardId then (strings, store)
  else
    let b := store.bucketAt route
    if b.hasExpirations && b.objectIsExpired key nowMs then
      (env.stringExists key, (store.countRemoval route fun b => b.deleteExpired key nowMs).2)
    else if b.containsLiveObject key liveNowMs then (true, store)
    else (strings, store)

/-- `pttl_millis`, or `none` when the string tables answer. -/
def pttlMillis : Option ℤ × RedisObjectStore ι β σ :=
  let route := routing.routeKey key
  if !store.shardHasObjects route.shardId then (none, store)
  else
    match store.countRemoval route fun b => b.purge key nowMs with
    | (true, store) => (some (-2), store)
    | (false, store) =>
      let out := (store.bucketAt route).ttlMillis key nowMs
      (if out.1 ≠ -2 then some out.1 else none, store.putBucket route out.2)

def ttlSeconds : Option ℤ × RedisObjectStore ι β σ :=
  let out := store.pttlMillis routing key nowMs
  (out.1.map fun ttl => if ttl < 0 then ttl else (ttl + 999) / 1000, out.2)

/-- A deadline write that is answered here when the key holds an object. -/
def onDeadline (write : RedisObjectBucket β σ → Bool × RedisObjectBucket β σ) :
    Option Bool × RedisObjectStore ι β σ :=
  let route := routing.routeKey key
  if !store.shardHasObjects route.shardId then (none, store)
  else
    match store.countRemoval route fun b => b.purge key nowMs with
    | (true, store) => (some false, store)
    | (false, store) =>
      let out := write (store.bucketAt route)
      let store := store.putBucket route out.2
      if out.1 then (some true, store)
      else if out.2.containsObject key then (some false, store)
      else (none, store)

def persist : Option Bool × RedisObjectStore ι β σ :=
  if !env.pointMutationIsAccepted key then (some false, store)
  else store.onDeadline routing key nowMs fun b => b.persist key nowMs

def expire (expireAtMs nowMs : ℕ) : Option Bool × RedisObjectStore ι β σ :=
  if !env.pointMutationIsAccepted key then (some false, store)
  else store.onDeadline routing key nowMs fun b => b.expire key expireAtMs nowMs

/-- The deletion reads the clock again. -/
def redisObjectMetadata {γ : Type} (key : β) (nowMs deleteNowMs : ℕ)
    (lookup : RedisObjectBucket β σ → Option γ) : Option γ × RedisObjectStore ι β σ :=
  let route := routing.routeKey key
  if !store.shardHasObjects route.shardId then (none, store)
  else
    let b := store.bucketAt route
    if b.hasExpirations && b.objectIsExpired key nowMs then
      (none, (store.countRemoval route fun b => b.deleteExpired key deleteNowMs).2)
    else (lookup b, store)

def cloneObjectValue (nowMs cloneNowMs fieldNowMs : ℕ) :
    Option (RedisObjectValue β σ) × RedisObjectStore ι β σ :=
  let route := routing.routeKey key
  let b := store.bucketAt route
  if b.hasExpirations && b.objectIsExpired key nowMs then
    (none, (store.countRemoval route fun b => b.deleteExpired key nowMs).2)
  else (b.cloneValue key cloneNowMs fieldNowMs, store)

variable (value : RedisObjectValue β σ)

def setObjectValueExpireAt (expireAtMs : Option ℕ) (nowMs : ℕ) : RedisObjectStore ι β σ :=
  let route := routing.routeKey key
  let store := (store.deletePinnedVectorValueIfDistinct env routing route key).2
  let b := store.bucketAt route
  let hadObject := b.containsObject key
  let inserted := b.insertValue key value
  let store := store.putBucket route inserted.2
  let store := if inserted.1 && !hadObject then store.noteCreated route.shardId else store
  match expireAtMs with
  | some expireAtMs => store.putBucket route (inserted.2.expire key expireAtMs nowMs).2
  | none => store

def saturatingAdd (a b : ℕ) : ℕ := min (a + b) (2 ^ 64 - 1)

def setObjectValue (ttlMs : Option ℕ) (nowMs : ℕ) :
    RedisObjectStore ι β σ :=
  match ttlMs with
  | none => store.setObjectValueExpireAt env routing key value none 0
  | some ttlMs =>
    store.setObjectValueExpireAt env routing key value (some (saturatingAdd nowMs ttlMs)) nowMs

/-- The clock readings of a rename, in the order in which they are taken. -/
def renameKey (clock : ℕ → ℕ) (source dest : β) (nx : Bool) :
    Except RedisKeyError Bool × RedisObjectStore ι β σ :=
  if source = dest then
    let out := store.keyExists env routing source (clock 0) (clock 1)
    (if out.1 then .ok !nx else .error .missingKey, out.2)
  else
    let taken := if nx then store.keyExists env routing dest (clock 0) (clock 1) else (false, store)
    if taken.1 then (.ok false, taken.2)
    else
      let ttl := taken.2.pttlMillis routing source (clock 2)
      let store := ttl.2
      let ttlMs := ttl.1.bind fun ttl => if 0 ≤ ttl then some ttl.toNat else none
      if env.vectorValue source then
        if !env.vectorMutationIsAccepted dest then (.error .replicationLimit, store)
        else
          let store := (store.delete env routing dest).2
          let store := (store.setPinnedVectorValue env routing dest).2
          (.ok true, (store.delete env routing source).2)
      else if env.stringExists source then
        let store := store.setValueBytesRouted env routing (routing.routeKey dest) dest
        (.ok true, (store.delete env routing source).2)
      else
        match store.cloneObjectValue routing source (clock 3) (clock 4) (clock 5) with
        | (some value, store) =>
          let store := (store.delete env routing dest).2
          let store := store.setObjectValue env routing dest value ttlMs (clock 6)
          (.ok true, (store.delete env routing source).2)
        | (none, store) => (.error .missingKey, store)

/-- What a dump payload decodes to. -/
inductive DumpRestoreValue (β σ : Type)
  | string
  | vectorSet (valid : Bool)
  | object (value : RedisObjectValue β σ)

inductive RestoreError
  | busyKey
  | badPayload
  | replicationLimit
  deriving DecidableEq

/-- `restore_key` after its arguments were parsed; `none` is a payload that does not decode. -/
def restoreKey (clock : ℕ → ℕ) (key : β) (ttl : ℕ) (replace absttl : Bool)
    (payload : Option (DumpRestoreValue β σ)) :
    Except RestoreError Unit × RedisObjectStore ι β σ :=
  let present :=
    if replace then (false, store) else store.keyExists env routing key (clock 0) (clock 1)
  let store := present.2
  if present.1 then (.error .busyKey, store)
  else
    match payload with
    | none => (.error .badPayload, store)
    | some value =>
      if ttl ≠ 0 && absttl && ttl ≤ clock 2 then
        (.ok (), if replace then (store.delete env routing key).2 else store)
      else
        let ttlMs :=
          if ttl = 0 then none else if absttl then some (ttl - clock 2) else some ttl
        match value with
        | .vectorSet valid =>
          if !valid then (.error .badPayload, store)
          else
            let out := store.setPinnedVectorValue env routing key
            (out.1.mapError fun _ => .replicationLimit, out.2)
        | .string => (.ok (), store.setValueBytesRouted env routing (routing.routeKey key) key)
        | .object value => (.ok (), store.setObjectValue env routing key value ttlMs (clock 3))

end RedisObjectStore
end ShardKv
