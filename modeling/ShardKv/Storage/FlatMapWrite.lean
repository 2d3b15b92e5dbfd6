import ShardKv.Storage.FlatMap

/-!
# Writes and fault-in of the flat map

The setters differ in how an occupied entry is rewritten, in whether a remote
copy is dropped first and in whether the memory limit is enforced afterwards.
The three ways to rewrite an entry are stated once; each setter keeps its own
definition in terms of them.
-/
namespace ShardKv.FlatMap

variable (map : FlatMap) (outside : Outside) (key value : Bytes) (nowMs : ℕ)

variable (entry : FlatEntry)

/-- Value, policy metadata and deadline are replaced and the counters adjusted. -/
def replaceOccupied (value : Bytes) (governance : Option Bytes) (expireAtMs : Option ℕ) : FlatMap :=
  let hadTtl := entry.expireAtMs.isSome
  let previousEntryBytes := entry.storedBytes key
  let entry := { entry.clearSemanticEmbedding with value, governance }
  { map with
    storedBytes := map.storedBytes - previousEntryBytes + entry.storedBytes key
    entries := map.entries.insert key { entry with expireAtMs } }
    |>.adjustTtlCount hadTtl expireAtMs.isSome

/-- The slice setters touch the deadline only when there is or was one, and the
byte counter only when the size changes. -/
def overwriteOccupied (value : Bytes) (expireAtMs : Option ℕ) : FlatMap :=
  let hadTtl := entry.expireAtMs.isSome
  let previousEntryBytes := entry.storedBytes key
  let entry := { entry.clearSemanticEmbedding with value }
  let entry := if hadTtl || expireAtMs.isSome then { entry with expireAtMs } else entry
  let ttlEntries :=
    if hadTtl || expireAtMs.isSome then
      match hadTtl, expireAtMs.isSome with
      | false, true => map.ttlEntries + 1
      | true, false => map.ttlEntries - 1
      | _, _ => map.ttlEntries
    else map.ttlEntries
  let newEntryBytes := entry.storedBytes key
  { map with
    entries := map.entries.insert key entry
    ttlEntries
    storedBytes :=
      if previousEntryBytes ≠ newEntryBytes then
        map.storedBytes - previousEntryBytes + newEntryBytes
      else map.storedBytes }

/-- The same without a new deadline. -/
def overwriteOccupiedNoTtl (value : Bytes) : FlatMap :=
  let hadTtl := entry.expireAtMs.isSome
  let previousEntryBytes := entry.storedBytes key
  let entry := { entry.clearSemanticEmbedding with value }
  let entry := if hadTtl then { entry with expireAtMs := none } else entry
  let newEntryBytes := entry.storedBytes key
  { map with
    entries := map.entries.insert key entry
    ttlEntries := if hadTtl then map.ttlEntries - 1 else map.ttlEntries
    storedBytes :=
      if previousEntryBytes ≠ newEntryBytes then
        map.storedBytes - previousEntryBytes + newEntryBytes
      else map.storedBytes }

variable (governance : Option Bytes) (expireAtMs : Option ℕ)

def insertVacant : FlatMap := { map with
    entries := map.entries.insert key { value, expireAtMs, governance }
    storedBytes := map.storedBytes + key.length + value.length + optionLen governance
    ttlEntries := if expireAtMs.isSome then map.ttlEntries + 1 else map.ttlEntries }

def setReplacing (nowMs : ℕ) : FlatMap :=
  let map := (map.deleteRemoteHashed key .explicit).2
  let map := match map.entries.lookup key with
    | some entry => map.replaceOccupied key entry value governance expireAtMs
    | none => map.insertVacant key value governance expireAtMs
  map.enforceMemoryLimit outside nowMs

def setBytesHashedWithGovernanceOption (nowMs : ℕ) : FlatMap :=
  map.setReplacing outside key value governance expireAtMs nowMs

/-- The bytes a key takes now, resident or remote. -/
def previousBytes : ℕ :=
  match map.entries.lookup key with
  | some entry => entry.storedBytes key
  | none => (map.remoteEntries.lookup key).elim 0 (·.storedBytes key)

def canSetBytesHashedWithLimit (valueLen governanceLen hardLimit : ℕ) : Bool :=
  if hardLimit = 2 ^ 64 - 1 then true
  else
    let projectedBytes :=
      map.storedBytes - map.previousBytes key + key.length + valueLen + governanceLen
    decide (projectedBytes ≤ hardLimit ∨ projectedBytes ≤ map.storedBytes)

def setBytesHashed (nowMs : ℕ) : FlatMap :=
  map.setBytesHashedWithGovernanceOption outside key value none expireAtMs nowMs

/-- The owned-buffer setter; its worker-local twin does the same. -/
def setHashed (nowMs : ℕ) : FlatMap :=
  map.setReplacing outside key value none expireAtMs nowMs

/-- The slice setter; the worker-local and tagged ones do the same. -/
def setSliceHashed (nowMs : ℕ) : FlatMap :=
  let map := (map.deleteRemoteHashed key .explicit).2
  let map := match map.entries.lookup key with
    | some entry => map.overwriteOccupied key entry value expireAtMs
    | none => map.insertVacant key value none expireAtMs
  map.enforceMemoryLimit outside nowMs

def overwriteNoTtl : FlatMap :=
  match map.entries.lookup key with
  | some entry => map.overwriteOccupiedNoTtl key entry value
  | none => map.insertVacant key value none none

/-- The limit is enforced at time zero. -/
def setSliceHashedNoTtl : FlatMap :=
  ((map.deleteRemoteHashed key .explicit).2.overwriteNoTtl key value).enforceMemoryLimit outside 0

/-- The worker-local setter leaves the memory limit alone. -/
def setSliceHashedTaggedNoTtlLocal : FlatMap :=
  (map.deleteRemoteHashed key .explicit).2.overwriteNoTtl key value

/-- The single-owner hot setter goes to the table at once: it neither drops a
remote copy nor enforces the limit. -/
def setSliceHashedTaggedNoTtlHot : FlatMap := map.overwriteNoTtl key value

/-- A semantic write sets the slice and then attaches index bytes and metadata. -/
def setSemanticSliceHashedInner (tokenBytes : ℕ) (governance : Option Bytes) (expireAtMs : Option ℕ)
    (nowMs : ℕ) : FlatMap :=
  let map := map.setSliceHashed outside key value expireAtMs nowMs
  match map.entries.lookup key with
  | none => map
  | some entry =>
    let tagged := { entry with semanticIndexToken := some tokenBytes, governance }
    { map with
      entries := map.entries.insert key tagged
      storedBytes := map.storedBytes - entry.storedBytes key + tagged.storedBytes key }
      |>.enforceMemoryLimit outside nowMs

def purgeExpired : FlatMap :=
  if map.entryIsExpiredHashed key nowMs then (map.deleteHashedInternal key .expired).2 else map

/-- Read-modify-write; a failed transform leaves the table alone, but an expired
entry and a remote copy are gone by then. -/
def transformValueHashed {ρ ε : Type} (clearTtl : Bool)
    (transform : Option Bytes → Except ε (ρ × Bytes)) : Except ε ρ × FlatMap :=
  let map := if map.ttlEntries ≠ 0 then map.purgeExpired key nowMs else map
  let map := (map.deleteRemoteHashed key .explicit).2
  match map.entries.lookup key with
  | some entry =>
    match transform (if entry.isProtected then none else some entry.value) with
    | .error error => (.error error, map)
    | .ok (result, value) =>
      let replaced := { entry.clearSemanticEmbedding with value }
      let map := { map with
        storedBytes := map.storedBytes - entry.storedBytes key + replaced.storedBytes key }
      let map :=
        if clearTtl then
          { map with entries := map.entries.insert key { replaced with expireAtMs := none } }
            |>.adjustTtlCount entry.expireAtMs.isSome false
        else { map with entries := map.entries.insert key replaced }
      (.ok result, map.enforceMemoryLimit outside nowMs)
  | none =>
    match transform none with
    | .error error => (.error error, map)
    | .ok (result, value) =>
      (.ok result, (map.insertVacant key value none none).enforceMemoryLimit outside nowMs)

/-- An update through a mutable slice cannot change the length. -/
structure SliceUpdate where
  apply : Bytes → Bytes
  length_apply : ∀ value, (apply value).length = value.length

/-- In-place update of an entry without deadline whose buffer nobody else holds. -/
def updateValueHashedNoTtl (isUnique : Bool) (update : SliceUpdate) : Bool × FlatMap :=
  match map.entries.lookup key with
  | none => (false, map)
  | some entry =>
    if entry.isProtected = false ∧ entry.expireAtMs.isNone = true ∧ isUnique = true then
      let previousEntryBytes := entry.storedBytes key
      let entry := entry.clearSemanticEmbedding
      let newEntryBytes := entry.storedBytes key
      (true, { map with
        entries := map.entries.insert key { entry with value := update.apply entry.value }
        storedBytes :=
          if previousEntryBytes ≠ newEntryBytes then
            map.storedBytes - previousEntryBytes + newEntryBytes
          else map.storedBytes })
    else (false, map)

/-- The native read-and-expire. -/
def getValueBytesHashedAndExpire (expireAtMs nowMs : ℕ) : Option Bytes × FlatMap :=
  match map.entries.lookup key with
  | none => (none, map)
  | some entry =>
    if entry.isProtected then (none, map)
    else if entry.isExpired nowMs then (none, (map.deleteHashed key).2)
    else
      (some entry.value, { map with
        entries := map.entries.insert key { entry with expireAtMs := some expireAtMs } }
        |>.adjustTtlCount entry.expireAtMs.isSome true)

def canStartObjectFault (valueLen : ℕ) : Bool := decide (map.pendingObjectFaultBytes = 0) ||
    decide (map.pendingObjectFaultBytes + valueLen ≤
      map.memoryLimitBytes.getD maxUnboundedPendingFaultBytes)

def prepareObjectFaultHashed (allowProtected : Bool) : Option ObjectFaultPlan × FlatMap :=
  let map := map.processObjectOverflowCompletions outside nowMs
  match map.objectOverflow, map.remoteEntries.lookup key with
  | some runtime, some remote =>
    if !runtime.fetchOnGet then (none, map)
    else if remote.isProtected && !allowProtected then (none, map)
    else if remote.isExpired nowMs then (none, (map.deleteRemoteHashed key .expired).2)
    else if !map.canStartObjectFault remote.object.len then (none, map)
    else
      (some { key, object := remote.object, reservedBytes := remote.object.len }, { map with
          pendingObjectFaultBytes := map.pendingObjectFaultBytes + remote.object.len
          pendingObjectFaults := map.pendingObjectFaults + 1 })
  | _, _ => (none, map)

def releaseFault (plan : ObjectFaultPlan) : FlatMap := { map with
    pendingObjectFaults := map.pendingObjectFaults - 1
    pendingObjectFaultBytes := map.pendingObjectFaultBytes - plan.reservedBytes }

/-- Putting a fetched value into the table. The memory limit is lifted around the
write; a value that does not fit goes back to the remote store. -/
def putFetched (remote : RemoteEntry) (nowMs : ℕ) : FlatMap :=
  let map := (map.deleteRemoteHashed key .explicit).2
  let memoryLimit := map.memoryLimitBytes
  let map := { map with memoryLimitBytes := none }.setBytesHashedWithGovernanceOption
    outside key value remote.governance remote.expireAtMs nowMs
  let map := { map with memoryLimitBytes := memoryLimit }
  if memoryLimit.any (fun limit => decide (limit < map.storedBytes)) then
    (map.tryOffloadHashed outside key nowMs).2
  else map

def finishObjectFault (plan : ObjectFaultPlan) (result : Except Unit Bytes) (nowMs : ℕ) :
    Except Unit (Option Bytes) × FlatMap :=
  let map := map.releaseFault plan
  match result with
  | .error error => (.error error, map)
  | .ok value =>
    match map.remoteEntries.lookup plan.key with
    | none => (.ok (some value), map)
    | some remote =>
      if remote.object ≠ plan.object then (.ok (some value), map)
      else if remote.isExpired nowMs then
        (.ok none, (map.deleteRemoteHashed plan.key .expired).2)
      else (.ok (some value), map.putFetched outside plan.key value remote nowMs)

/-- Fetching a remote value in one call, as the blocking reads do. -/
def faultIn (allowProtected : Bool) : Option Bytes × FlatMap :=
  match map.prepareObjectFaultHashed outside key nowMs allowProtected with
  | (none, map) => (none, map)
  | (some plan, map) =>
    match map.finishObjectFault outside plan (outside.getValue plan.object) nowMs with
    | (.ok (some value), map) => (some value, map)
    | (_, map) => (none, map)

def removeRemoteValueHashed : Option Bytes × FlatMap :=
  match map.remoteEntries.lookup key with
  | none => (none, map)
  | some remote =>
    if remote.isExpired nowMs then (none, (map.deleteRemoteHashed key .expired).2)
    else if remote.isProtected then (none, (map.deleteRemoteHashed key .explicit).2)
    else
      match map.faultIn outside key nowMs false with
      | (none, map) => (none, map)
      | (some value, map) => (some value, (map.deleteHashedInternal key .explicit).2)

def removeValueHashed : Option Bytes × FlatMap :=
  match map.entries.lookup key with
  | none => map.removeRemoteValueHashed outside key nowMs
  | some entry =>
    if entry.isExpired nowMs then (none, (map.deleteHashedInternal key .expired).2)
    else (if entry.isProtected then none else some entry.value, map.removeEntry key entry)

end ShardKv.FlatMap
