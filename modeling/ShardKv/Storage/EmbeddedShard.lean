import ShardKv.Storage.FlatMapRead
import ShardKv.Storage.SessionSlots

/-!
# A shard of the embedded store

A shard has two places for a value: its flat map, and the slab of the session
that the key belongs to. A write to one of them clears the other only where the
path that was taken says so, and every reader consults the two in its own order.

The embedding is that of a shard without memory limit and without overflow
runtime, as it is created: nothing is evicted or offloaded, and the flat map needs
no answers from outside.
-/
namespace ShardKv

structure EmbeddedShard where
  map : FlatMap := {}
  sessionSlots : SessionSlotMap := {}

namespace EmbeddedShard

variable (shard : EmbeddedShard) (key : Bytes)

/-- What point writes do about the slab of the key. -/
def clearPointSession : EmbeddedShard :=
  match pointWriteSessionStoragePrefix key with
  | some session =>
    { shard with sessionSlots := (shard.sessionSlots.deleteHashed session key).2 }
  | none => shard

variable (routeMode : EmbeddedRouteMode)

/-- What the writes through a mutable guard do about it. -/
def clearDerivedSession : EmbeddedShard :=
  if routeMode = .sessionPrefix then
    match derivedSessionStoragePrefix key with
    | some session =>
      { shard with sessionSlots := (shard.sessionSlots.deleteHashed session key).2 }
    | none => shard
  else shard

/-- `set_value_bytes_hashed` and its twin without deadline. -/
def setValueBytesHashed (value : Bytes) (expireAtMs : Option ℕ) (nowMs : ℕ) : EmbeddedShard :=
  let shard := shard.clearDerivedSession key routeMode
  { shard with map := shard.map.setBytesHashed {} key value expireAtMs nowMs }

variable (nowMs : ℕ)

def removeValueHashed : Option Bytes × EmbeddedShard :=
  let out := shard.map.removeValueHashed {} key nowMs
  (out.1, { shard with map := out.2 })

def setSessionSliceHashedNoTtl (session value : Bytes) : EmbeddedShard where
  map := if shard.map.isEmpty then shard.map else (shard.map.deleteHashed key).2
  sessionSlots := shard.sessionSlots.setSliceHashed session key value

/-- The copy in the slab of the session that the key names. -/
def sessionCopy : Option Bytes :=
  (derivedSessionStoragePrefix key).bind fun session => shard.sessionSlots.getRefHashed session key

def getRefHashedFlat : Option Bytes × EmbeddedShard :=
  let out := shard.map.getRefHashed key nowMs
  (out.1, { shard with map := out.2 })

def getRefHashedSessionOrFlat : Option Bytes × EmbeddedShard :=
  match shard.sessionCopy key with
  | some value => (some value, shard)
  | none => shard.getRefHashedFlat key nowMs

def getRefHashedActiveSessionOrFlat (activeSession : Option Bytes) (nowMs : ℕ) :
    Option Bytes × EmbeddedShard :=
  match activeSession with
  | some session => (shard.sessionSlots.getRefHashed session key, shard)
  | none => shard.getRefHashedFlat key nowMs

/-- The session that the key names, when it has a slab. -/
def publishedSession : Option Bytes :=
  (derivedSessionStoragePrefix key).filter fun session => shard.sessionSlots.hasSession session

def getRefHashedPublishedSessionOrFlat : Option Bytes × EmbeddedShard :=
  shard.getRefHashedActiveSessionOrFlat key (shard.publishedSession key) nowMs

end EmbeddedShard
end ShardKv
