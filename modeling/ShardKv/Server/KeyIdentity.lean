import ShardKv.Server.ScnpSet
import ShardKv.Storage.FlatMapEdits

/-!
# A key has one place

RESP requests place a key by its own hash, native SETs by the hash they carry, and a
worker that runs alone puts tagged ones into the first shard. As long as these places are
those of the keys, each entry lies where the hash of its key says: no key is stored twice,
and what a SET has acknowledged is what the next GET finds.
-/
namespace ShardKv

open FlatMap ScnpSetFrame

inductive StoreRequest (config : HashedConfig)
  | scnpSet (ctx : ScnpContext config.toEmbeddedConfig) (frame : ScnpSetFrame) (beside : Beside)
      (nowMs : ℕ)
  | respSet (key value : Bytes) (options : SetOptions) (beside : Beside) (nowMs : ℕ)
  | respGet (key : Bytes) (beside : Beside) (nowMs ownerMinLen : ℕ)
  /-- Any other RESP request: its calls, each on the table of its key. -/
  | resp (calls : List FlatMapCall)
  /-- The store takes an entry out on its own. -/
  | evict (shardId hash : ℕ) (key : Bytes)

inductive StoreReply
  | set (answer : SetAnswer)
  | get (answer : GetAnswer)
  | other
  deriving DecidableEq

namespace HashedStore

variable (config : HashedConfig) (store : HashedStore)

def applyCall (call : FlatMapCall) : HashedStore :=
  match call.op.key with
  | none => store
  | some key => store.modify (config.routeKey key).shardId (config.routeKey key).keyHash call.apply

def execute : StoreRequest config → StoreReply × HashedStore
  | .scnpSet ctx frame beside nowMs =>
    let (answer, store) := frame.execute ctx store beside nowMs
    (.set answer, store)
  | .respSet key value options beside nowMs =>
    let (answer, store) := store.respSet config key value options beside nowMs
    (.set answer, store)
  | .respGet key beside nowMs ownerMinLen =>
    (.get (store.respGet config key beside nowMs ownerMinLen), store)
  | .resp calls => (.other, calls.foldl (applyCall config) store)
  | .evict shardId hash key =>
    (.other, store.modify shardId hash fun map => (map.deleteHashedInternal key .evicted).2)

def step (request : StoreRequest config) : HashedStore :=
  (store.execute config request).2

def run (requests : List (StoreRequest config)) : HashedStore := requests.foldl (step config) {}

end HashedStore

/-- The lock-free writer for tagged frames asks for no shard. -/
def ScnpSetFrame.takesFirstShard {config : HashedConfig} (frame : ScnpSetFrame)
    (ctx : ScnpContext config.toEmbeddedConfig) (beside : Beside) : Bool :=
  frame.select ctx beside = .fullKeyTagged && config.build.lockFree && !beside.hasRedisObjects

namespace StoreRequest

variable {config : HashedConfig}

/-- Requests that may change the entry of a key. -/
def writes (key : Bytes) : StoreRequest config → Prop
  | .scnpSet _ frame _ _ => frame.key = key
  | .respSet target _ _ _ _ => target = key
  | .respGet .. => False
  | .resp calls => ∃ call ∈ calls, call.op.key = some key
  | .evict _ _ target => target = key

/-- The key and the value of a SET. -/
def target : StoreRequest config → Option (Bytes × Bytes)
  | .scnpSet _ frame _ _ => some (frame.key, frame.value)
  | .respSet key value _ _ _ => some (key, value)
  | _ => none

/-- The deadline a SET gives to its value. -/
def deadline (store : HashedStore) : StoreRequest config → Option ℕ
  | .respSet key _ options beside nowMs =>
    if options.keepTtl then
      (beside.objectExpiry.or ((unexpired nowMs ((store.tableOf config key).entries.lookup key)).map
          (·.expireAtMs))).join
    else deadlineAfter nowMs options.ttlMs
  | _ => none

end StoreRequest

namespace HashedStore

variable {config : HashedConfig} {store : HashedStore} {value : Bytes} {expireAtMs : Option ℕ}
  {key : Bytes}

/-- The tables neither evict nor offload on their own, and their counters are exact. -/
def Settled (store : HashedStore) : Prop :=
  ∀ shardId hash, Quiet (store.tables shardId hash) ∧ Accounted (store.tables shardId hash)

/-- Every entry lies where the hash of its key says. -/
def Placed (config : HashedConfig) (store : HashedStore) : Prop :=
  ∀ shardId hash key, ((store.tables shardId hash).entries.lookup key).isSome →
    hash = config.hashKey key ∧ shardId = config.routeHash hash

/-- No key has two entries, in whatever shard and under whatever hash. -/
def Unique (store : HashedStore) : Prop := ∀ key shardId hash shardId' hash',
    ((store.tables shardId hash).entries.lookup key).isSome ∨
        ((store.tables shardId hash).remoteEntries.lookup key).isSome →
      ((store.tables shardId' hash').entries.lookup key).isSome ∨
          ((store.tables shardId' hash').remoteEntries.lookup key).isSome →
        shardId = shardId' ∧ hash = hash'

/-- What a request may do: one table has changed, and there one key only. -/
structure Moves (store store' : HashedStore) (shardId hash : ℕ) (key : Bytes) : Prop where
  settled : Settled store'
  elsewhere : ∀ shardId' hash', ¬ (shardId' = shardId ∧ hash' = hash) →
    store'.tables shardId' hash' = store.tables shardId' hash'
  other : ∀ other, other ≠ key → (store'.tables shardId hash).entries.lookup other =
      (store.tables shardId hash).entries.lookup other

/-- All entries of the other keys stay. -/
theorem Moves.lookup {store' : HashedStore} {shardId hash : ℕ} {key other : Bytes}
    (h : Moves store store' shardId hash key) (hother : other ≠ key) (shardId' hash' : ℕ) :
    (store'.tables shardId' hash').entries.lookup other =
      (store.tables shardId' hash').entries.lookup other := by
  by_cases hplace : shardId' = shardId ∧ hash' = hash
  · obtain ⟨rfl, rfl⟩ := hplace
    exact h.other other hother
  · rw [h.elsewhere shardId' hash' hplace]

theorem Placed.unique (hplaced : Placed config store) (hsettled : Settled store) :
    Unique store := by
  have hplace : ∀ key shardId hash, ((store.tables shardId hash).entries.lookup key).isSome ∨
          ((store.tables shardId hash).remoteEntries.lookup key).isSome →
        hash = config.hashKey key ∧ shardId = config.routeHash hash := by
    intro key shardId hash hheld
    rcases hheld with hresident | hremote
    · exact hplaced shardId hash key hresident
    · rw [(hsettled shardId hash).1.remote_lookup] at hremote
      cases hremote
  intro key shardId hash shardId' hash' hheld hheld'
  obtain ⟨rfl, rfl⟩ := hplace key shardId hash hheld
  obtain ⟨rfl, rfl⟩ := hplace key shardId' hash' hheld'
  exact ⟨rfl, rfl⟩

/-- The shard of a hash, and the hash. -/
abbrev place (config : HashedConfig) (hash : ℕ) : ℕ × ℕ := (config.routeHash hash, hash)

/-- A value is stored in a shard under a hash. -/
structure Stores (store store' : HashedStore) (spot : ℕ × ℕ) (key value : Bytes)
    (expireAtMs : Option ℕ) : Prop where
  moves : Moves store store' spot.1 spot.2 key
  stored : (store'.tables spot.1 spot.2).entries.lookup key = some { value, expireAtMs }

section Writers

variable {key value : Bytes} (hsettled : Settled store)
  (haccepted : config.pointMutationIsAccepted key value.length none = true)

include hsettled

include haccepted

end Writers

/-- Where a native SET may store its value: under the hash it carries, in the shard of this hash
or in the first one, or in the place of its key. -/
def places (ctx : ScnpContext config.toEmbeddedConfig) (frame : ScnpSetFrame) (beside : Beside) :
    Set (ℕ × ℕ) :=
  {spot | frame.flags.keyHash = true ∧ (spot = place config frame.keyHash ∨
      frame.takesFirstShard ctx beside = true ∧ spot = (0, frame.keyHash)) ∨
    spot = place config (config.hashKey frame.key)}

/-- A SET is refused and changes nothing, or its value is stored in one of the places. -/
def SetOutcome (store : HashedStore) (out : SetAnswer × HashedStore) (places : Set (ℕ × ℕ))
    (key value : Bytes) (expireAtMs : Option ℕ) : Prop :=
  (out.1 ≠ .ok ∧ out.2 = store) ∨
    (out.1 = .ok ∧ ∃ spot ∈ places, Stores store out.2 spot key value expireAtMs)

variable {out : SetAnswer × HashedStore}

theorem SetOutcome.mono {places places' : Set (ℕ × ℕ)}
    (h : SetOutcome store out places key value expireAtMs) (hsub : places ⊆ places') :
    SetOutcome store out places' key value expireAtMs := by
  rcases h with hrefused | ⟨hok, spot, hmem, hstores⟩
  · exact .inl hrefused
  · exact .inr ⟨hok, spot, hsub hmem, hstores⟩

section Frames

variable {ctx : ScnpContext config.toEmbeddedConfig} {frame : ScnpSetFrame} {beside : Beside}
  {nowMs : ℕ} (hsettled : Settled store)

include hsettled

end Frames

/-- Tables have changed, one after the other, each at one of the keys; what lies there
afterwards is in its place. -/
abbrev Changes (config : HashedConfig) (keys : Set Bytes) (honest : Prop) :
    HashedStore → HashedStore → Prop :=
  Relation.ReflTransGen fun store store' => ∃ shardId hash, ∃ key ∈ keys,
    Moves store store' shardId hash key ∧
      (honest → ((store'.tables shardId hash).entries.lookup key).isSome →
        hash = config.hashKey key ∧ shardId = config.routeHash hash)

namespace Changes

variable {keys : Set Bytes} {honest : Prop} {store' : HashedStore}

section

variable (h : Changes config keys honest store store')
include h

theorem settled (hsettled : Settled store) : Settled store' := by
  induction h with
  | refl => exact hsettled
  | tail _ hchange _ =>
    obtain ⟨_, _, _, _, hmoves, _⟩ := hchange
    exact hmoves.settled

theorem lookup (hfree : key ∉ keys) (shardId hash : ℕ) :
    (store'.tables shardId hash).entries.lookup key =
      (store.tables shardId hash).entries.lookup key := by
  induction h with
  | refl => rfl
  | tail _ hchange ih =>
    obtain ⟨_, _, target, htarget, hmoves, _⟩ := hchange
    rw [hmoves.lookup (ne_of_mem_of_not_mem htarget hfree).symm, ih]

theorem mono {keys' : Set Bytes} {honest' : Prop} (hkeys : keys ⊆ keys')
    (hhonest : honest' → honest) : Changes config keys' honest' store store' := by
  refine h.lift id ?_
  rintro _ _ ⟨shardId, hash, key, hkey, hmoves, hplace⟩
  exact ⟨shardId, hash, key, hkeys hkey, hmoves, fun hh => hplace (hhonest hh)⟩

end
end Changes

theorem run_append (before : List (StoreRequest config)) (set : StoreRequest config)
    (between : List (StoreRequest config)) :
    run config (before ++ set :: between) =
      between.foldl (step config) ((run config before).step config set) := by
  rw [run, List.foldl_append, List.foldl_cons]
  rfl

end HashedStore
end ShardKv
