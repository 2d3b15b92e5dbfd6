import ShardKv.Storage.EmbeddedReads

/-!
# Calls on session keys

All calls that write, delete or read keys `s:<session>:c:<chunk>` of a store in
session mode, together with the map they are meant to keep: a key has the value of
its last write, unless it was deleted or its deadline has passed.

The clock is part of the state and never runs back. Protected values have an
interface of their own and do not occur.
-/
namespace ShardKv

open Function

structure SessionConfig extends EmbeddedConfig where
  sessionMode : routeMode = .sessionPrefix

instance : Coe SessionConfig EmbeddedConfig := ⟨SessionConfig.toEmbeddedConfig⟩

/-- A key `s:<session>:c:<chunk>`. -/
structure SessionKey where
  name : Bytes
  chunk : Bytes
  deriving DecidableEq

namespace SessionKey

def bytes (key : SessionKey) : Bytes := sessionMark ++ key.name ++ chunkMark ++ key.chunk

/-- The session as the code reads it off: a chunk name may contain another `:c:`. -/
def session (key : SessionKey) : Bytes := sessionRoutePrefix key.bytes

end SessionKey

/-- The keys of one session. -/
def KeyOf (session : Bytes) : Type := { key : SessionKey // key.session = session }

def KeyOf.bytes {session : Bytes} (key : KeyOf session) : Bytes := key.val.bytes

structure Written where
  value : Bytes
  expireAtMs : Option ℕ := none
  deriving DecidableEq

/-- What is still there of a write. -/
def visible (nowMs : ℕ) (written : Option Written) : Option Written :=
  written.filter fun written => !isExpiredAt written.expireAtMs nowMs

def visibleValue (nowMs : ℕ) (written : Option Written) : Option Bytes :=
  (visible nowMs written).map (·.value)

inductive SessionReader
  | get (key : SessionKey)
  | view (key : SessionKey)
  | viewNoTtl (key : SessionKey)
  | preparedViewNoTtl (key : SessionKey)
  | batchGet (keys : List SessionKey)
  | batchView (keys : List SessionKey)
  | sessionGet (session : Bytes) (keys : List (KeyOf session))
  | sessionView (session : Bytes) (keys : List (KeyOf session))
  | routedSessionGet (session : Bytes) (keys : List (KeyOf session))
  | routedSessionView (session : Bytes) (keys : List (KeyOf session))

namespace SessionReader

def keys : SessionReader → List Bytes
  | get key => [key.bytes]
  | view key => [key.bytes]
  | viewNoTtl key => [key.bytes]
  | preparedViewNoTtl key => [key.bytes]
  | batchGet keys => keys.map (·.bytes)
  | batchView keys => keys.map (·.bytes)
  | sessionGet _ keys => keys.map (·.bytes)
  | sessionView _ keys => keys.map (·.bytes)
  | routedSessionGet _ keys => keys.map (·.bytes)
  | routedSessionView _ keys => keys.map (·.bytes)

/-- The values for the keys of the request, and the store after the read. -/
def answer (config : EmbeddedConfig) (store : EmbeddedStore) (nowMs : ℕ) :
    SessionReader → List (Option Bytes) × EmbeddedStore
  | get key =>
    let out := store.getWithRoute config key.bytes nowMs
    ([out.1], out.2)
  | view key =>
    let out := store.getViewRouted config key.bytes nowMs
    ([out.1], out.2)
  | viewNoTtl key => ([store.getViewRoutedNoTtl config key.bytes], store)
  | preparedViewNoTtl key => ([store.getPreparedViewNoTtl config key.bytes], store)
  | batchGet keys => store.batchGet config (keys.map (·.bytes)) nowMs
  | batchView keys =>
    let out := store.batchGetView config (keys.map (·.bytes)) nowMs
    (out.1.items, out.2)
  | sessionGet session keys =>
    store.batchGetSessionPrehashed config session (keys.map (·.bytes)) nowMs
  | sessionView session keys =>
    let out := store.batchGetSessionViewPrehashed config session (keys.map (·.bytes)) nowMs
    (out.1.items, out.2)
  | routedSessionGet session keys =>
    store.batchGetSessionRouted (config.routeSession session) (keys.map (·.bytes)) nowMs
  | routedSessionView session keys =>
    let out := store.batchGetSessionViewPrehashedRouted (config.routeSession session)
      (keys.map (·.bytes)) nowMs
    (out.1.items, out.2)

/-- A reader answers with what is visible of the last writes. Readers that do not look at the
clock may also answer with a value whose deadline has passed. -/
def Agrees (written : Bytes → Option Written) (nowMs : ℕ) (reader : SessionReader)
    (values : List (Option Bytes)) : Prop :=
  match reader with
  | viewNoTtl key | preparedViewNoTtl key =>
    values = [visibleValue nowMs (written key.bytes)] ∨ values = [(written key.bytes).map (·.value)]
  | reader => values = reader.keys.map fun key => visibleValue nowMs (written key)

end SessionReader

inductive SessionCall
  | set (key : SessionKey) (value : Bytes) (ttlMs : Option ℕ)
  | setSlicePrehashed (key : SessionKey) (value : Bytes) (ttlMs : Option ℕ)
  | setSliceKeepTtl (key : SessionKey) (value : Bytes) (ownedReplacement : Bool)
      (objectExpiry : Option (Option ℕ))
  | transform (key : SessionKey) (refused : Bool) (edit : Option Bytes → Except Unit Bytes)
  | mutateInPlace (key : SessionKey) (refused isUnique : Bool) (update : FlatMap.SliceUpdate)
  | getMutSet (key : SessionKey) (value : Bytes) (untilSet untilWrite : ℕ)
  | getMutRemove (key : SessionKey) (untilRemove : ℕ)
  | ownedSet (shardId keyHash : ℕ) (key : SessionKey) (value : Bytes) (shardHasObjects : Bool)
  | ownedSessionSet (key : SessionKey) (value : Bytes) (shardHasObjects : Bool)
  | delete (key : SessionKey) (shardHasObjects : Bool)
  | sessionSlices (session : Bytes) (items : List (KeyOf session × Bytes))
  | routedSessionSlices (session : Bytes) (items : List (KeyOf session × Bytes))
  | read (reader : SessionReader)

def sliceItems {session : Bytes} (items : List (KeyOf session × Bytes)) : List (Bytes × Bytes) :=
  items.map fun item => (item.1.bytes, item.2)

namespace SessionCall

variable (config : EmbeddedConfig)

/-- The time between the first and the last look at the clock. -/
def duration : SessionCall → ℕ
  | getMutSet _ _ untilSet untilWrite => untilSet + untilWrite
  | getMutRemove _ untilRemove => untilRemove
  | _ => 0

def apply (store : EmbeddedStore) (nowMs : ℕ) : SessionCall → EmbeddedStore
  | set key value ttlMs => store.set config key.bytes value ttlMs nowMs
  | setSlicePrehashed key value ttlMs =>
    store.setSlicePrehashed config key.bytes value ttlMs nowMs
  | setSliceKeepTtl key value ownedReplacement objectExpiry =>
    store.setSliceKeepTtl config key.bytes value ownedReplacement objectExpiry nowMs
  | transform key refused edit =>
    store.transformRawStringValueNoTtl config key.bytes refused edit nowMs
  | mutateInPlace key refused isUnique update =>
    store.mutateStringValueNoTtlInPlace config key.bytes refused isUnique update
  | getMutSet key value untilSet untilWrite =>
    store.getMutSet config key.bytes value nowMs (nowMs + untilSet) (nowMs + untilSet + untilWrite)
  | getMutRemove key untilRemove =>
    store.getMutRemove config key.bytes nowMs (nowMs + untilRemove)
  | ownedSet shardId keyHash key value shardHasObjects =>
    (store.setSliceHashedTaggedOwnedShardNoTtl config shardId keyHash key.bytes value
      shardHasObjects).2
  | ownedSessionSet key value shardHasObjects =>
    (store.setSessionSliceHashedOwnedShardNoTtlPrevalidated config
      (config.routeSession key.session) key.session key.bytes value shardHasObjects).2
  | delete key shardHasObjects => (store.delete config key.bytes shardHasObjects).2
  | sessionSlices session items =>
    store.batchSetSessionSlicesNoTtl config session (sliceItems items)
  | routedSessionSlices session items =>
    store.batchSetSessionSlicesRoutedNoTtl (config.routeSession session) (sliceItems items)
  | read reader => (reader.answer config store nowMs).2

/-- Whether an owned-shard write is carried out. -/
def ownedSetAccepted (shardId keyHash : ℕ) (key value : Bytes) (shardHasObjects : Bool) : Bool :=
  config.pointMutationIsAccepted key value.length none && decide (shardId < config.shardCount) &&
    !shardHasObjects && decide ((config.routeKey key).shardId = shardId) &&
    decide ((config.routeKey key).keyHash = keyHash)

def ownedSessionSetAccepted (key value : Bytes) (shardHasObjects : Bool) : Bool :=
  config.pointMutationIsAccepted key value.length none && !shardHasObjects

/-- The effect of a call on the map that session storage is meant to be. -/
def record (nowMs : ℕ) (written : Bytes → Option Written) : SessionCall → Bytes → Option Written
  | set key value ttlMs | setSlicePrehashed key value ttlMs =>
    if config.pointMutationIsAccepted key.bytes value.length none then
      update written key.bytes
        (some { value, expireAtMs := deadlineAfter nowMs ttlMs })
    else written
  | setSliceKeepTtl key value _ objectExpiry =>
    if config.pointMutationIsAccepted key.bytes value.length none then
      let kept := (visible nowMs (written key.bytes)).map (·.expireAtMs)
      update written key.bytes
        (some { value, expireAtMs := (objectExpiry.or kept).join })
    else written
  | transform key refused edit =>
    if refused then written
    else
      match edit (visibleValue nowMs (written key.bytes)) with
      | .error _ => written
      | .ok value =>
        if config.pointMutationIsAccepted key.bytes value.length none then
          update written key.bytes (some { value })
        else written
  | mutateInPlace key refused isUnique update =>
    match written key.bytes with
    | some { value, expireAtMs := none } =>
      if !refused && isUnique then
        Function.update written key.bytes (some { value := update.apply value })
      else written
    | _ => written
  | getMutSet key value untilSet _ =>
    match visible nowMs (written key.bytes) with
    | none => written
    | some previous =>
      if config.pointMutationIsAccepted key.bytes value.length none ∧
          isExpiredAt previous.expireAtMs (nowMs + untilSet) = false then
        update written key.bytes (some { previous with value })
      else written
  | getMutRemove key _ =>
    if (visible nowMs (written key.bytes)).isSome then update written key.bytes none
    else written
  | ownedSet shardId keyHash key value shardHasObjects =>
    if ownedSetAccepted config shardId keyHash key.bytes value shardHasObjects then
      update written key.bytes (some { value })
    else written
  | ownedSessionSet key value shardHasObjects =>
    if ownedSessionSetAccepted config key.bytes value shardHasObjects then
      update written key.bytes (some { value })
    else written
  | delete key _ =>
    if config.pointMutationIsAccepted key.bytes 0 none then update written key.bytes none
    else written
  | sessionSlices _ items | routedSessionSlices _ items =>
    (sliceItems items).foldl
      (fun written item => update written item.1 (some { value := item.2 })) written
  | read _ => written

/-- The calls that put a value into the slab of a session. -/
def writesSlab : SessionCall → Bool
  | ownedSet shardId keyHash key value shardHasObjects =>
    ownedSetAccepted config shardId keyHash key.bytes value shardHasObjects
  | ownedSessionSet key value shardHasObjects =>
    ownedSessionSetAccepted config key.bytes value shardHasObjects
  | sessionSlices _ items => !items.isEmpty
  | _ => false

end SessionCall

/-- A store, the map it is meant to be, and the time. -/
structure SessionState where
  store : EmbeddedStore := {}
  written : Bytes → Option Written := fun _ => none
  clock : ℕ := 0

/-- A call some time after the one before. -/
structure TimedCall where
  elapsed : ℕ := 0
  call : SessionCall

variable (config : EmbeddedConfig)

def SessionState.step (state : SessionState) (timed : TimedCall) :
    SessionState :=
  let nowMs := state.clock + timed.elapsed
  { store := timed.call.apply config state.store nowMs
    written := timed.call.record config nowMs state.written
    clock := nowMs + timed.call.duration }

def SessionState.run (calls : List TimedCall) : SessionState :=
  calls.foldl (SessionState.step config) {}

/-- From now on, and until the next write, every reader agrees with the map. -/
def SessionState.ReadsAgree (state : SessionState) : Prop :=
  ∀ reader nowMs, state.clock ≤ nowMs →
    SessionReader.Agrees state.written nowMs reader (reader.answer config state.store nowMs).1

end ShardKv
