import ShardKv.Foundations.Bytes
import ShardKv.Foundations.Tally

/-!
# The flat map of a shard

Values are resident in one table or, after an offload, remote with only a
reference kept. Byte, deadline and remote counters are adjusted by each path on
its own. The embedding follows the default build: entries are found by key, the
answers of the overflow runtime and the choice of eviction victims come in from
outside with each call, and data that no counter or answer reads (access ranks,
buffer reuse, statistics) is left out.
-/
namespace ShardKv

inductive DeleteReason
  | explicit
  | expired
  | evicted
  deriving DecidableEq

inductive ObjectOverflowFailurePolicy
  | retainResident
  | evictResident
  deriving DecidableEq

inductive ObjectOverflowCompression
  | none
  | lz4
  | zstd
  deriving DecidableEq

structure ObjectValueRef where
  objectKey : String
  len : ℕ
  storedLen : ℕ
  compression : ObjectOverflowCompression
  checksum : ℕ
  deriving DecidableEq

/-- What the put worker decides about a stored object; its length is that of the value. -/
structure ObjectPut where
  objectKey : String
  storedLen : ℕ
  compression : ObjectOverflowCompression
  checksum : ℕ

def ObjectPut.ref (put : ObjectPut) (raw : Bytes) : ObjectValueRef where
  objectKey := put.objectKey
  len := raw.length
  storedLen := put.storedLen
  compression := put.compression
  checksum := put.checksum

/-- The size in bytes of an `ObjectValueRef` in memory. -/
def objectValueRefSize : ℕ := 48

def maxUnboundedPendingFaultBytes : ℕ := 64 * 1024 * 1024

structure FlatEntry where
  value : Bytes
  expireAtMs : Option ℕ := none
  /-- The bytes held by the semantic index for this entry. -/
  semanticIndexToken : Option ℕ := none
  governance : Option Bytes := none
  deriving DecidableEq

structure RemoteEntry where
  object : ObjectValueRef
  expireAtMs : Option ℕ
  governance : Option Bytes
  deriving DecidableEq

def isExpiredAt (expireAtMs : Option ℕ) (nowMs : ℕ) : Bool :=
  expireAtMs.any fun deadline => decide (deadline ≤ nowMs)

theorem isExpiredAt_mono {nowMs later : ℕ} {expireAtMs : Option ℕ} (hle : nowMs ≤ later)
    (h : isExpiredAt expireAtMs nowMs = true) : isExpiredAt expireAtMs later = true := by
  cases expireAtMs with
  | none => exact h
  | some deadline =>
    simp only [isExpiredAt, Option.any_some, decide_eq_true_eq] at h ⊢
    omega

def optionLen (bytes : Option Bytes) : ℕ := (bytes.map List.length).getD 0

namespace FlatEntry

variable (entry : FlatEntry)

def isExpired (nowMs : ℕ) : Bool := isExpiredAt entry.expireAtMs nowMs

def isProtected : Bool := entry.governance.isSome

def semanticBytes : ℕ :=
  entry.semanticIndexToken.getD 0 + optionLen entry.governance

def storedBytes (key : Bytes) (entry : FlatEntry) : ℕ :=
  key.length + entry.value.length + entry.semanticBytes

def clearSemanticEmbedding : FlatEntry :=
  { entry with semanticIndexToken := none, governance := none }

end FlatEntry

namespace RemoteEntry

def isExpired (remote : RemoteEntry) (nowMs : ℕ) : Bool := isExpiredAt remote.expireAtMs nowMs

def isProtected (remote : RemoteEntry) : Bool := remote.governance.isSome

def storedBytes (key : Bytes) (remote : RemoteEntry) : ℕ :=
  key.length + remote.object.objectKey.utf8ByteSize + objectValueRefSize +
    optionLen remote.governance

end RemoteEntry

structure PendingObjectOffload where
  sourceValue : Bytes
  ticket : ℕ

structure ObjectOverflowRuntime where
  fetchOnGet : Bool
  minValueBytes : ℕ
  failurePolicy : ObjectOverflowFailurePolicy

def ObjectOverflowRuntime.shouldOffload (runtime : ObjectOverflowRuntime) (valueLen : ℕ) : Bool :=
  decide (runtime.minValueBytes ≤ valueLen)

/-- The answers a call gets from outside the map. -/
structure Outside where
  /-- The result of a put, once its worker is done. -/
  pollPutValue : ℕ → Option (Except Unit ObjectPut) := fun _ => none
  /-- A ticket for a queued put, or nothing when the queue refuses it. -/
  enqueuePutValue : Bytes → Option ℕ := fun _ => none
  getValue : ObjectValueRef → Except Unit Bytes := fun _ => .error ()
  /-- Whether the access ranks of an entry allow an offload. -/
  isColdEntry : Bytes → Bool := fun _ => true
  /-- The entries the eviction policy picks, in order. -/
  victims : List Bytes := []

structure FlatMap where
  entries : FinMap Bytes FlatEntry := ∅
  remoteEntries : FinMap Bytes RemoteEntry := ∅
  pendingObjectOffloads : FinMap Bytes PendingObjectOffload := ∅
  pendingObjectFaults : ℕ := 0
  pendingObjectFaultBytes : ℕ := 0
  ttlEntries : ℕ := 0
  storedBytes : ℕ := 0
  remoteValueBytes : ℕ := 0
  memoryLimitBytes : Option ℕ := none
  hasEvictionPolicy : Bool := false
  objectOverflow : Option ObjectOverflowRuntime := none
  evictions : ℕ := 0

structure ObjectFaultPlan where
  key : Bytes
  object : ObjectValueRef
  reservedBytes : ℕ

inductive ObjectOffloadAttempt
  | pending
  | notEligible
  | hotRetainResident
  | failedRetainResident
  | failedEvictResident
  deriving DecidableEq

namespace FlatMap

variable (map : FlatMap)

def len : ℕ := map.entries.keys.length + map.remoteEntries.keys.length

def isEmpty : Bool := decide (map.len = 0)

def hasNoTtlEntries : Bool := decide (map.ttlEntries = 0)

def adjustTtlCount (hadTtl hasTtl : Bool) : FlatMap :=
  match hadTtl, hasTtl with
  | false, true => { map with ttlEntries := map.ttlEntries + 1 }
  | true, false => { map with ttlEntries := map.ttlEntries - 1 }
  | _, _ => map

def entryIsExpiredHashed (key : Bytes) (nowMs : ℕ) : Bool :=
  (map.entries.lookup key).any (·.isExpired nowMs) ||
    (map.remoteEntries.lookup key).any (·.isExpired nowMs)

def countEviction (reason : DeleteReason) : FlatMap :=
  if reason = .evicted then { map with evictions := map.evictions + 1 } else map

def deleteRemoteHashed (key : Bytes) (reason : DeleteReason) : Bool × FlatMap :=
  match map.remoteEntries.lookup key with
  | none => (false, map)
  | some remote =>
    (true, countEviction { map with
      remoteEntries := map.remoteEntries.erase key
      storedBytes := map.storedBytes - remote.storedBytes key
      remoteValueBytes := map.remoteValueBytes - remote.object.len
      ttlEntries :=
        if remote.expireAtMs.isSome then map.ttlEntries - 1 else map.ttlEntries } reason)

/-- Taking a resident entry out of the table and of the counters. -/
def removeEntry (key : Bytes) (entry : FlatEntry) : FlatMap := { map with
    entries := map.entries.erase key
    storedBytes := map.storedBytes - entry.storedBytes key
    ttlEntries := if entry.expireAtMs.isSome then map.ttlEntries - 1 else map.ttlEntries }

def deleteHashedInternal (key : Bytes) (reason : DeleteReason) : Bool × FlatMap :=
  match map.entries.lookup key with
  | none => map.deleteRemoteHashed key reason
  | some entry => (true, (map.removeEntry key entry).countEviction reason)

def deleteHashed (key : Bytes) : Bool × FlatMap := map.deleteHashedInternal key .explicit

/-- A finished put: the resident entry becomes a remote one. -/
def moveToRemote (key : Bytes) (entry : FlatEntry) (object : ObjectValueRef) : FlatMap :=
  let remote : RemoteEntry :=
    { object, expireAtMs := entry.expireAtMs, governance := entry.governance }
  { map with
    entries := map.entries.erase key
    storedBytes := map.storedBytes - entry.storedBytes key + remote.storedBytes key
    remoteValueBytes := map.remoteValueBytes + entry.value.length
    remoteEntries := map.remoteEntries.insert key remote
    evictions := map.evictions + 1 }

variable (outside : Outside)

/-- One pending offload of the completion loop. -/
def completeOffload (runtime : ObjectOverflowRuntime) (nowMs : ℕ) (key : Bytes) :
    FlatMap :=
  match map.pendingObjectOffloads.lookup key with
  | none => map
  | some pending =>
    match outside.pollPutValue pending.ticket with
    | none => map
    | some result =>
      let map := { map with pendingObjectOffloads := map.pendingObjectOffloads.erase key }
      match result, map.entries.lookup key with
      | .error _, some entry =>
        if runtime.failurePolicy = .evictResident ∧ entry.value = pending.sourceValue then
          (map.deleteHashedInternal key .evicted).2
        else map
      | .error _, none => map
      | .ok put, some entry =>
        if entry.value = pending.sourceValue ∧ entry.isExpired nowMs = false then
          map.moveToRemote key entry (put.ref pending.sourceValue)
        else map
      | .ok _, none => map

variable (nowMs : ℕ)

def processObjectOverflowCompletions : FlatMap :=
  match map.objectOverflow with
  | none =>
    { map with
      pendingObjectOffloads := ∅
      pendingObjectFaults := 0
      pendingObjectFaultBytes := 0 }
  | some runtime =>
    map.pendingObjectOffloads.keys.foldl
      (fun map key => map.completeOffload outside runtime nowMs key) map

def deleteAll (keys : List Bytes) : FlatMap :=
  keys.foldl (fun map key => (map.deleteHashedInternal key .expired).2) map

def deleteAllRemote (keys : List Bytes) : FlatMap :=
  keys.foldl (fun map key => (map.deleteRemoteHashed key .expired).2) map

def expiredKeys : List Bytes :=
  map.entries.keys.filter fun key => (map.entries.lookup key).any (·.isExpired nowMs)

def expiredRemoteKeys : List Bytes :=
  map.remoteEntries.keys.filter fun key => (map.remoteEntries.lookup key).any (·.isExpired nowMs)

def sweepExpired : ℕ × FlatMap :=
  let expired := map.expiredKeys nowMs
  let map := map.deleteAll expired
  let remoteExpired := map.expiredRemoteKeys nowMs
  (expired.length + remoteExpired.length, map.deleteAllRemote remoteExpired)

def processMaintenance : ℕ × FlatMap :=
  let map := map.processObjectOverflowCompletions outside nowMs
  if map.ttlEntries = 0 then (0, map) else map.sweepExpired nowMs

def tryOffloadHashed (key : Bytes) (nowMs : ℕ) :
    ObjectOffloadAttempt × FlatMap :=
  if (map.pendingObjectOffloads.lookup key).isSome then (.pending, map)
  else
    match map.objectOverflow, map.entries.lookup key with
    | some runtime, some entry =>
      if entry.isExpired nowMs then (.notEligible, map)
      else if !runtime.shouldOffload entry.value.length then (.notEligible, map)
      else if !outside.isColdEntry key then (.hotRetainResident, map)
      else
        match outside.enqueuePutValue key with
        | none =>
          match runtime.failurePolicy with
          | .retainResident => (.failedRetainResident, map)
          | .evictResident => (.failedEvictResident, map)
        | some ticket =>
          (.pending, { map with
            pendingObjectOffloads :=
              map.pendingObjectOffloads.insert key { sourceValue := entry.value, ticket } })
    | _, _ => (.notEligible, map)

def evictOrOffloadHashed (key : Bytes) (nowMs : ℕ) : Bool × FlatMap :=
  match map.tryOffloadHashed outside key nowMs with
  | (.pending, map) => (false, map)
  | (.notEligible, map) => map.deleteHashedInternal key .evicted
  | (.failedEvictResident, map) => map.deleteHashedInternal key .evicted
  | (.hotRetainResident, map) => (false, map)
  | (.failedRetainResident, map) => (false, map)

def evictWhileAbove (outside : Outside) (nowMs targetBytes : ℕ) : List Bytes → FlatMap → FlatMap
  | [], map => map
  | key :: keys, map =>
    if map.storedBytes ≤ targetBytes then map
    else evictWhileAbove outside nowMs targetBytes keys (map.evictOrOffloadHashed outside key nowMs).2

def evictToMemoryTarget (nowMs targetBytes : ℕ) : FlatMap :=
  if map.hasEvictionPolicy = false ∨ map.isEmpty = true then map
  else evictWhileAbove outside nowMs targetBytes outside.victims map

def evictionTargetBytes (limit : ℕ) : ℕ :=
  if limit ≤ 4096 then limit else limit - max (limit / 20) 1

def enforceMemoryLimit : FlatMap :=
  let map := map.processObjectOverflowCompletions outside nowMs
  match map.memoryLimitBytes with
  | none => map
  | some limit =>
    if map.storedBytes ≤ limit then map
    else
      let map := if 0 < map.ttlEntries then (map.processMaintenance outside nowMs).2 else map
      map.evictToMemoryTarget outside nowMs (evictionTargetBytes limit)

def persist (key : Bytes) (nowMs : ℕ) : Bool × FlatMap :=
  if map.entryIsExpiredHashed key nowMs then (false, (map.deleteHashed key).2)
  else
    match map.entries.lookup key with
    | some entry =>
      if entry.expireAtMs.isNone then (false, map)
      else
        (true, { map with entries := map.entries.insert key { entry with expireAtMs := none } }
          |>.adjustTtlCount true false)
    | none =>
      match map.remoteEntries.lookup key with
      | none => (false, map)
      | some remote =>
        if remote.expireAtMs.isNone then (false, map)
        else
          (true, { map with
            remoteEntries := map.remoteEntries.insert key { remote with expireAtMs := none } }
            |>.adjustTtlCount true false)

def expire (key : Bytes) (expireAtMs nowMs : ℕ) : Bool × FlatMap :=
  if map.entryIsExpiredHashed key nowMs then (false, (map.deleteHashed key).2)
  else
    match map.entries.lookup key with
    | some entry =>
      (true, { map with
        entries := map.entries.insert key { entry with expireAtMs := some expireAtMs } }
        |>.adjustTtlCount entry.expireAtMs.isSome true)
    | none =>
      match map.remoteEntries.lookup key with
      | none => (false, map)
      | some remote =>
        (true, { map with
          remoteEntries := map.remoteEntries.insert key { remote with
            expireAtMs := some expireAtMs } }
          |>.adjustTtlCount remote.expireAtMs.isSome true)

end FlatMap
end ShardKv
