import ShardKv.Storage.FlatMapWrite

/-!
# Reads of the flat map

Plain reads see unprotected entries only. Most of them come twice: a path that
ignores deadlines, taken while no entry carries one, and a path that checks the
deadline and may delete an expired entry on the way.
-/
namespace ShardKv

inductive GovernedObjectFault
  | missing
  | denied
  | resident (value : Bytes)
  | remote (plan : ObjectFaultPlan)

inductive GovernedRead
  | missing
  | denied
  | authorized (value : Bytes)
  deriving DecidableEq

namespace FlatMap

variable (map : FlatMap) (key : Bytes) (nowMs : ℕ)

/-- The entry a plain read may see. -/
def findReadable : Option FlatEntry :=
  (map.entries.lookup key).filter fun entry => !entry.isProtected

def lookupRefHashedLazy : Option Bytes := (map.findReadable key).map (·.value)

def getRefHashedSharedNoTtl : Option Bytes := (map.findReadable key).map (·.value)

def getSharedValueBytesHashed : Option Bytes :=
  ((map.findReadable key).filter fun entry => !entry.isExpired nowMs).map (·.value)

def getRefHashedShared : Option Bytes :=
  if map.ttlEntries = 0 then map.getRefHashedSharedNoTtl key
  else map.getSharedValueBytesHashed key nowMs

/-- The value handed to a response writer, with its shared owner when it is large. -/
def withResponseValueBytesHashed (ownerMinLen : ℕ) : Option (Bytes × Option Bytes) :=
  let value :=
    if map.hasNoTtlEntries then map.getRefHashedSharedNoTtl key
    else map.getRefHashedShared key nowMs
  value.map fun value =>
    (value,
      if ownerMinLen ≤ value.length then
        if map.hasNoTtlEntries then map.getRefHashedSharedNoTtl key
        else map.getSharedValueBytesHashed key nowMs
      else none)

def purgeThen {α : Type} (missing : α) (read : FlatMap → α) : α × FlatMap :=
  if map.entryIsExpiredHashed key nowMs then
    (missing, (map.deleteHashedInternal key .expired).2)
  else (read map, map)

def getRefHashedTtl : Option Bytes × FlatMap :=
  map.purgeThen key nowMs none (·.lookupRefHashedLazy key)

def getRefHashed : Option Bytes × FlatMap :=
  if map.ttlEntries = 0 then (map.lookupRefHashedLazy key, map)
  else map.getRefHashedTtl key nowMs

def entryExpireAtHashedNoTtl : Option (Option ℕ) := (map.entries.lookup key).map fun _ => none

def entryExpireAtHashedTtl : Option (Option ℕ) × FlatMap :=
  map.purgeThen key nowMs none fun map => (map.entries.lookup key).map (·.expireAtMs)

def entryExpireAtHashed : Option (Option ℕ) × FlatMap :=
  if map.ttlEntries = 0 then ((map.entries.lookup key).map (·.expireAtMs), map)
  else map.entryExpireAtHashedTtl key nowMs

def isValueProtectedHashed : Bool :=
  ((map.entries.lookup key).filter fun entry => !entry.isExpired nowMs).any (·.isProtected) ||
    (map.remoteEntries.lookup key).any fun remote => !remote.isExpired nowMs && remote.isProtected

/-- The deadline that a write with `KEEPTTL` keeps; an expired entry goes on the way. -/
def entryExpireAtForKeepTtlHashed : Option (Option ℕ) × FlatMap :=
  match map.entries.lookup key with
  | some entry =>
    if entry.isExpired nowMs then (none, (map.deleteHashedInternal key .expired).2)
    else (some entry.expireAtMs, map)
  | none =>
    match map.remoteEntries.lookup key with
    | none => (none, map)
    | some remote =>
      if remote.isExpired nowMs then (none, (map.deleteHashedInternal key .expired).2)
      else (some remote.expireAtMs, map)

def containsReadable : Bool := (map.findReadable key).isSome ||
    (map.remoteEntries.lookup key).any fun remote => !remote.isProtected

def existsTtl : Bool × FlatMap := map.purgeThen key nowMs false (·.containsReadable key)

def «exists» : Bool × FlatMap :=
  if map.ttlEntries ≠ 0 then map.existsTtl key nowMs else (map.containsReadable key, map)

variable (outside : Outside)

/-- Owned read: a miss in the table may still be fetched from the remote store. -/
def get (key : Bytes) (nowMs : ℕ) : Option Bytes × FlatMap :=
  match map.getRefHashed key nowMs with
  | (some value, map) => (some value, map)
  | (none, map) => map.faultIn outside key nowMs false

def ceilSeconds (millis : ℕ) : ℕ := (millis + 999) / 1000

def remoteTtl (seconds : Bool) : ℤ × FlatMap :=
  match map.remoteEntries.lookup key with
  | none => (-2, map)
  | some remote =>
    match remote.expireAtMs with
    | none => (-1, map)
    | some deadline =>
      if deadline ≤ nowMs then (-2, (map.deleteRemoteHashed key .expired).2)
      else (if seconds then (ceilSeconds (deadline - nowMs) : ℕ) else (deadline - nowMs : ℕ), map)

def ttlOf (seconds : Bool) : ℤ × FlatMap :=
  match map.entries.lookup key with
  | none => map.remoteTtl key nowMs seconds
  | some entry =>
    match entry.expireAtMs with
    | none => (-1, map)
    | some deadline =>
      if deadline ≤ nowMs then (-2, (map.deleteHashedInternal key .expired).2)
      else (if seconds then (ceilSeconds (deadline - nowMs) : ℕ) else (deadline - nowMs : ℕ), map)

def ttlSeconds : ℤ × FlatMap := map.ttlOf key nowMs true

def ttlMillis : ℤ × FlatMap := map.ttlOf key nowMs false

def prepareGovernedObjectFaultHashed (key : Bytes) (nowMs : ℕ)
    (authorize : Option Bytes → Bool) : GovernedObjectFault × FlatMap :=
  let map := map.processObjectOverflowCompletions outside nowMs
  match (map.entries.lookup key).filter (fun entry => !entry.isExpired nowMs) with
  | some entry =>
    if authorize entry.governance then (.resident entry.value, map) else (.denied, map)
  | none =>
    match map.remoteEntries.lookup key with
    | none => (.missing, map)
    | some remote =>
      if remote.isExpired nowMs then (.missing, (map.deleteRemoteHashed key .expired).2)
      else if !authorize remote.governance then (.denied, map)
      else
        match map.prepareObjectFaultHashed outside key nowMs true with
        | (none, map) => (.missing, map)
        | (some plan, map) => (.remote plan, map)

def getValueBytesHashedWithGovernanceFilter (key : Bytes) (nowMs : ℕ)
    (authorize : Option Bytes → Bool) : GovernedRead × FlatMap :=
  match map.prepareGovernedObjectFaultHashed outside key nowMs authorize with
  | (.missing, map) => (.missing, map)
  | (.denied, map) => (.denied, map)
  | (.resident value, map) => (.authorized value, map)
  | (.remote plan, map) =>
    match map.finishObjectFault outside plan (outside.getValue plan.object) nowMs with
    | (.ok (some value), map) => (.authorized value, map)
    | (_, map) => (.missing, map)

def configureMemoryPolicy (memoryLimitBytes : Option ℕ)
    (hasEvictionPolicy : Bool) (nowMs : ℕ) : FlatMap :=
  { map with
    memoryLimitBytes := memoryLimitBytes.filter fun limit => decide (0 < limit)
    hasEvictionPolicy }.enforceMemoryLimit outside nowMs

/-- Another runtime is refused while values depend on the current one. -/
def configureObjectOverflow (objectOverflow : Option ObjectOverflowRuntime)
    (sameInstance : Bool) (nowMs : ℕ) : Except Unit Unit × FlatMap :=
  let unchanged := match map.objectOverflow, objectOverflow with
    | none, none => true
    | some _, some _ => sameInstance
    | _, _ => false
  if unchanged || (map.remoteEntries.keys.isEmpty && map.pendingObjectOffloads.keys.isEmpty &&
      decide (map.pendingObjectFaults = 0)) then
    (.ok (), { map with objectOverflow }.enforceMemoryLimit outside nowMs)
  else (.error (), map)

/-- Candidates are tried until one is really gone. -/
def evictFirst (outside : Outside) (nowMs : ℕ) : List Bytes → FlatMap → Option Bytes × FlatMap
  | [], map => (none, map)
  | key :: keys, map =>
    match map.evictOrOffloadHashed outside key nowMs with
    | (true, map) => (some key, map)
    | (false, map) => evictFirst outside nowMs keys map

def evictOneWithPolicy (nowMs : ℕ) : Option Bytes × FlatMap :=
  evictFirst outside nowMs outside.victims map

end FlatMap
end ShardKv
