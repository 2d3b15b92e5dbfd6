import ShardKv.Objects.SlotTable
import ShardKv.Objects.ScoreList

/-!
# Object buckets

A bucket keeps hashes, lists, sets and sorted sets in four slabs, each with a map that
says in which slot the object of a key is. All maps are over the same keys, with one map
of key deadlines and one of hash-field deadlines beside them.
Containers stand here for what they hold: a list is a sequence, a sorted set a
`ScoreList`. Keys, fields, members and values are byte strings of one ordered
type; scores are ordered by the total comparison of floats.

A hash whose last field passes its deadline stays stored until some call cleans
it up, so that being stored and being alive are different things.
-/
namespace ShardKv

variable {β σ : Type} [LinearOrder β] [LinearOrder σ]

inductive ObjectKind
  | hash
  | list
  | set
  | zset
  deriving DecidableEq, Repr

/-- The order in which a bucket looks through its maps. -/
def ObjectKind.all : List ObjectKind := [.hash, .list, .set, .zset]

instance : Fintype ObjectKind where
  elems := ⟨ObjectKind.all, by decide⟩
  complete kind := by cases kind <;> decide

/-- What an object of a kind holds. -/
abbrev Contents (β σ : Type) [LinearOrder β] [LinearOrder σ] : ObjectKind → Type
  | .hash => FinMap β β
  | .list => List β
  | .set => List β
  | .zset => ScoreList σ β

def Contents.isEmpty : (kind : ObjectKind) → Contents β σ kind → Bool
  | .hash, hash => hash.keys.isEmpty
  | .list, list => List.isEmpty list
  | .set, set => List.isEmpty set
  | .zset, zset => zset.keys.isEmpty

inductive RedisObjectResult (β : Type)
  | simple (text : String)
  | integer (value : ℤ)
  | integerArray (values : List ℤ)
  | bulk (value : Option β)
  | array (values : List (Option β))
  | wrongType
  deriving DecidableEq

/-- A whole object, as it is copied, dumped and restored. -/
inductive RedisObjectValue (β σ : Type)
  | hash (entries : List (β × β))
  | list (entries : List β)
  | set (entries : List β)
  | zset (entries : List (β × σ))

structure RedisObjectBucket (β σ : Type) [LinearOrder β] [LinearOrder σ] where
  slots : SlotTable β (Contents β σ) := SlotTable.empty
  expireAtMs : FinMap β ℕ := ∅
  hashFieldExpireAtMs : FinMap β (FinMap β ℕ) := ∅

/-- What a write reports: its reply, and whether an object appeared or disappeared. -/
structure BucketWrite (β σ : Type) [LinearOrder β] [LinearOrder σ] where
  reply : RedisObjectResult β
  changed : Bool
  bucket : RedisObjectBucket β σ

namespace RedisObjectBucket

variable (b : RedisObjectBucket β σ) (key : β) (nowMs : ℕ)

def hashes : SlabMap β (FinMap β β) := b.slots .hash

def lists : SlabMap β (List β) := b.slots .list

def sets : SlabMap β (List β) := b.slots .set

def zsets : SlabMap β (ScoreList σ β) := b.slots .zset

def containsObject : Bool := ObjectKind.all.any fun kind => b.slots.holds kind key

variable (kind : ObjectKind)

/-- `has_non_hash`, `has_non_list`, `has_non_set` and `has_non_zset`. -/
def hasNon : Bool :=
  (ObjectKind.all.filter (· ≠ kind)).any fun other => b.slots.holds other key

/-- Write an object in place or into a new slot. -/
def putSlot (object : Contents β σ kind) : RedisObjectBucket β σ :=
  { b with slots := b.slots.put kind key object }

/-- Give a slot up, with the deadlines that belong to it. -/
def removeSlot : RedisObjectBucket β σ :=
  { slots := b.slots.drop kind key
    expireAtMs := b.expireAtMs.erase key
    hashFieldExpireAtMs :=
      if kind = .hash then b.hashFieldExpireAtMs.erase key else b.hashFieldExpireAtMs }

def deleteAny : Bool × RedisObjectBucket β σ :=
  match ObjectKind.all.find? fun kind => b.slots.holds kind key with
  | some kind => (true, b.removeSlot key kind)
  | none => (false, b)

variable (field : β)

def setHashFieldExpiry (expireAtMs : ℕ) : RedisObjectBucket β σ :=
  let submap := (b.hashFieldExpireAtMs.lookup key).getD ∅
  { b with hashFieldExpireAtMs := b.hashFieldExpireAtMs.insert key (submap.insert field expireAtMs) }

def clearHashFieldTtl : RedisObjectBucket β σ :=
  match b.hashFieldExpireAtMs.lookup key with
  | none => b
  | some submap =>
    let submap := submap.erase field
    { b with
      hashFieldExpireAtMs :=
        if submap.keys.isEmpty then b.hashFieldExpireAtMs.erase key
        else b.hashFieldExpireAtMs.insert key submap }

def clearHashFieldTtls (fields : List β) : RedisObjectBucket β σ :=
  fields.foldl (fun b field => b.clearHashFieldTtl key field) b

def hashFieldExpiry : Option ℕ :=
  (b.hashFieldExpireAtMs.lookup key).bind fun submap => submap.lookup field

def hashFieldIsExpired (nowMs : ℕ) : Bool :=
  (b.hashFieldExpiry key field).any fun expireAtMs => expireAtMs ≤ nowMs

def hashHasLiveFields : Bool :=
  match b.hashes.lookup key with
  | none => false
  | some hash =>
    if hash.keys.isEmpty then false
    else if (b.hashFieldExpireAtMs.lookup key).isNone then true
    else hash.keys.any fun field => !b.hashFieldIsExpired key field nowMs

/-- The fields of a key whose deadline has passed. -/
def expiredHashFields : List β :=
  match b.hashFieldExpireAtMs.lookup key with
  | none => []
  | some ttls => (ttls.entries.filter fun ttl => ttl.2 ≤ nowMs).map Sigma.fst

def eraseFields (hash : FinMap β β) (fields : List β) : FinMap β β :=
  fields.foldl (fun hash field => hash.erase field) hash

/-- Drop passed fields. The hash itself stays stored, even when nothing is left in it. -/
def removeExpiredHashFields : RedisObjectBucket β σ :=
  let expired := b.expiredHashFields key nowMs
  if expired.isEmpty then b
  else
    let b := match b.hashes.lookup key with
      | some hash => b.putSlot key .hash (eraseFields hash expired)
      | none => b
    b.clearHashFieldTtls key expired

def removeHashIfEmpty : Bool × RedisObjectBucket β σ :=
  match b.hashes.lookup key with
  | none => (false, b)
  | some hash => if hash.keys.isEmpty then (true, b.removeSlot key .hash) else (false, b)

def removeExpiredHashIfEmpty : Bool × RedisObjectBucket β σ :=
  (b.removeExpiredHashFields key nowMs).removeHashIfEmpty key

def hashNeedsEmptyExpiryCleanup : Bool :=
  (b.hashes.lookup key).isSome && !b.hashHasLiveFields key nowMs

def hasExpirations : Bool := !b.expireAtMs.keys.isEmpty

def objectIsExpired : Bool := (b.expireAtMs.lookup key).any fun expireAtMs => expireAtMs ≤ nowMs

def deleteExpired : Bool × RedisObjectBucket β σ :=
  if b.objectIsExpired key nowMs then b.deleteAny key else (false, b)

def containsLiveObject : Bool :=
  if b.objectIsExpired key nowMs then false
  else b.hashHasLiveFields key nowMs || b.hasNon key .hash

def entryExpireAt : Option (Option ℕ) :=
  if b.containsObject key then some (b.expireAtMs.lookup key) else none

def expire (expireAtMs nowMs : ℕ) : Bool × RedisObjectBucket β σ :=
  match b.deleteExpired key nowMs with
  | (true, b) => (false, b)
  | (false, b) =>
    if b.containsObject key then (true, { b with expireAtMs := b.expireAtMs.insert key expireAtMs })
    else (false, b)

def persist : Bool × RedisObjectBucket β σ :=
  match b.deleteExpired key nowMs with
  | (true, b) => (false, b)
  | (false, b) =>
    ((b.expireAtMs.lookup key).isSome, { b with expireAtMs := b.expireAtMs.erase key })

def ttlMillis : ℤ × RedisObjectBucket β σ :=
  match b.deleteExpired key nowMs with
  | (true, b) => (-2, b)
  | (false, b) =>
    match b.removeExpiredHashIfEmpty key nowMs with
    | (true, b) => (-2, b)
    | (false, b) =>
      if !b.containsObject key then (-2, b)
      else
        match b.expireAtMs.lookup key with
        -- the remaining `u64` is read back as an `i64`
        | some expireAtMs => (Int.bmod (expireAtMs - nowMs : ℕ) (2 ^ 64), b)
        | none => (-1, b)

/-- The entries of a hash, by field. -/
def hashEntries (hash : FinMap β β) : List (β × β) :=
  (hash.entries.map fun entry => (entry.1, entry.2)).insertionSort fun left right =>
    left.1 ≤ right.1

/-- The second reading is taken only when the hash has field deadlines. -/
def cloneValue (fieldNowMs : ℕ) : Option (RedisObjectValue β σ) :=
  match b.hashes.lookup key with
  | some hash =>
    if !b.hashHasLiveFields key nowMs then none
    else some (.hash ((hashEntries hash).filter fun entry =>
      !b.hashFieldIsExpired key entry.1 fieldNowMs))
  | none =>
    match b.lists.lookup key with
    | some list => some (.list list)
    | none =>
      match b.sets.lookup key with
      | some set => some (.set set)
      | none => (b.zsets.lookup key).map fun zset => .zset (zset.keys.map entryOf)

end RedisObjectBucket

/-- A new member goes to the end; the flag tells whether it was new. -/
def insertMember (set : List β) (member : β) : Bool × List β :=
  if member ∈ set then (false, set) else (true, set ++ [member])

/-- `insert_many`: the members one after the other, counting the new ones. -/
def insertMembers : List β → List β → ℕ × List β
  | set, [] => (0, set)
  | set, member :: members =>
    let one := insertMember set member
    let rest := insertMembers one.2 members
    ((if one.1 then 1 else 0) + rest.1, rest.2)

/-- Store one entry after the other, counting the new fields. -/
def insertFields : FinMap β β → List (β × β) → ℕ × FinMap β β
  | hash, [] => (0, hash)
  | hash, (field, value) :: fields =>
    let rest := insertFields (hash.insert field value) fields
    ((if (hash.lookup field).isNone then 1 else 0) + rest.1, rest.2)

namespace RedisObjectValue

def kind : RedisObjectValue β σ → ObjectKind
  | .hash _ => .hash
  | .list _ => .list
  | .set _ => .set
  | .zset _ => .zset

def contents : (value : RedisObjectValue β σ) → Contents β σ value.kind
  | .hash entries => (insertFields ∅ entries).2
  | .list entries => entries
  | .set entries => (insertMembers [] entries).2
  | .zset entries => entries.foldl (fun zset entry => zset.insert entry.1 entry.2) .empty

end RedisObjectValue

/-- Replace whatever the key holds; the flag tells whether it held nothing. -/
def RedisObjectBucket.insertValue (b : RedisObjectBucket β σ) (key : β)
    (value : RedisObjectValue β σ) : Bool × RedisObjectBucket β σ :=
  let deleted := b.deleteAny key
  (!deleted.1, deleted.2.putSlot key value.kind value.contents)

end ShardKv
