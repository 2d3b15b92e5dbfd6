import ShardKv.Foundations.Tally
import ShardKv.Storage.Routing

/-!
# Session slabs

A shard keeps the chunks of a session in a slab of its own, beside the flat map.
A slab that loses its last chunk is dropped, so that a session that is known to
the map has a chunk: readers take the existence of a slab as a sign that the
session is published there. Access ranks, packed buffers and the values that are
kept for running readers are left out.
-/
namespace ShardKv

abbrev SessionSlotSlab := FinMap Bytes Bytes

theorem emptySlabs_occupied (session : Bytes) (slab : SessionSlotSlab)
    (h : (∅ : FinMap Bytes SessionSlotSlab).lookup session = some slab) : slab.keys ≠ [] := by
  cases h

structure SessionSlotMap where
  sessions : FinMap Bytes SessionSlotSlab := ∅
  occupied : ∀ session slab, sessions.lookup session = some slab → slab.keys ≠ [] := by
    exact emptySlabs_occupied

namespace SessionSlotMap

variable (slots : SessionSlotMap) (session key : Bytes)

def hasSession : Bool := (slots.sessions.lookup session).isSome

def getRefHashed : Option Bytes := (slots.sessions.lookup session).bind (·.lookup key)

def isEmpty : Bool := slots.sessions.keys = []

def setSliceHashed (value : Bytes) : SessionSlotMap where
  sessions :=
    slots.sessions.insert session (((slots.sessions.lookup session).getD ∅).insert key value)
  occupied := by
    intro other slab h
    rw [FinMap.lookup_insert_eq] at h
    split_ifs at h with hsame
    · obtain rfl := Option.some.inj h
      simp [AList.keys_insert]
    · exact slots.occupied other slab h

/-- The slab after a removal, unless that was its last chunk. -/
def keepSlab (slab : SessionSlotSlab) : SessionSlotMap :=
  if hslab : slab.keys = [] then
    { sessions := slots.sessions.erase session
      occupied := by
        intro other slab h
        rw [FinMap.lookup_erase_eq] at h
        split_ifs at h with hsame
        exact slots.occupied other slab h }
  else
    { sessions := slots.sessions.insert session slab
      occupied := by
        intro other slab' h
        rw [FinMap.lookup_insert_eq] at h
        split_ifs at h with hsame
        · obtain rfl := Option.some.inj h
          exact hslab
        · exact slots.occupied other slab' h }

def deleteHashed : Bool × SessionSlotMap :=
  match slots.sessions.lookup session with
  | none => (false, slots)
  | some slab =>
    match slab.lookup key with
    | none => (false, slots)
    | some _ => (true, slots.keepSlab session (slab.erase key))

end SessionSlotMap
end ShardKv
