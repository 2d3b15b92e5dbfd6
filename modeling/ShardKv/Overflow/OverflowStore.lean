import ShardKv.Overflow.OverflowKey
import ShardKv.Foundations.History

/-!
# Runs of the key-value overflow store

An action is one atomic step of a client, a worker, a reader or of maintenance,
on one key, or a new reading of the clock, which may go either way. Client calls
on one key do not overlap: a set or delete begins only where none is in progress.
A call that is turned away by a limit leaves nothing behind but an unused
generation.
-/
namespace ShardKv

variable {κ ι β : Type} [DecidableEq κ] [DecidableEq ι] [DecidableEq β]

structure KvOverflowOptions where
  fetchOnMiss : Bool := true
  forgetRemoteMisses : Bool := false

inductive KeyAction (β : Type)
  | setResident (value : β) (governance : Option β) (ttlMs : Option ℕ) (admitted : Bool)
  | setForget
  | setEnqueue
  | deleteBegin
  | deleteEnd
  | execute (succeeded : Bool)
  | complete (index : ℕ)
  | noteRetry
  | retry (index : ℕ)
  | noteExpired
  | cleanup (index : ℕ)
  | evict
  | purge
  | readBegin (reader : ℕ)
  | readExpect (reader : ℕ)
  | readCheck (reader : ℕ)
  | readFetch (reader : ℕ) (succeeded : Bool)
  | readEnd (reader : ℕ) (admitted : Bool)

namespace OverflowKey

variable (options : KvOverflowOptions) (shard : ι)

/-- One action on a key, with the next unused generation of its shard before and after. -/
def step (nowMs next : ℕ) (s : OverflowKey ι β) : KeyAction β → ℕ × OverflowKey ι β
  | .setResident value governance ttlMs admitted =>
    (next + 1, if admitted then s.setResident nowMs next value governance ttlMs else s)
  | .setForget => (next, s.setForget)
  | .setEnqueue => (next, s.setEnqueue)
  | .deleteBegin => (next + 1, s.deleteBegin nowMs shard next)
  | .deleteEnd => (next, s.deleteEnd)
  | .execute succeeded => (next, s.execute succeeded)
  | .complete index => (next, s.complete shard index)
  | .noteRetry => (next, s.noteRetry)
  | .retry index => (next, s.retry index)
  | .noteExpired => (next, s.noteExpired nowMs)
  | .cleanup index => s.cleanup shard next index
  | .evict => (next, s.evict nowMs shard)
  | .purge => (next, s.purge nowMs)
  | .readBegin reader => (next, s.readBegin nowMs options.fetchOnMiss reader)
  | .readExpect reader => (next, s.readExpect reader)
  | .readCheck reader => (next, s.readCheck nowMs reader)
  | .readFetch reader succeeded => (next, s.readFetch nowMs reader succeeded)
  | .readEnd reader admitted => (next, s.readEnd nowMs options.forgetRemoteMisses reader admitted)

/-- A value that the new reading of the clock finds expired is no longer owed to anyone. -/
def observe (nowMs : ℕ) (s : OverflowKey ι β) : OverflowKey ι β :=
  { s with latest := s.latest.filter fun entry => !entry.written.isExpired nowMs }

end OverflowKey

/-- The store over all its keys, each routed to one primary shard. -/
structure KvOverflowStore (κ ι β : Type) where
  nowMs : ℕ := 0
  sequence : ι → ℕ := fun _ => 1
  keys : κ → OverflowKey ι β := fun _ => {}

inductive OverflowAction (κ β : Type)
  | tick (nowMs : ℕ)
  | key (key : κ) (action : KeyAction β)

namespace KvOverflowStore

variable (options : KvOverflowOptions) (shardOf : κ → ι) (store : KvOverflowStore κ ι β)

def apply : OverflowAction κ β → KvOverflowStore κ ι β
  | .tick nowMs =>
    { store with nowMs := nowMs, keys := fun key => (store.keys key).observe nowMs }
  | .key key action =>
    let shard := shardOf key
    let out := (store.keys key).step options shard store.nowMs (store.sequence shard) action
    { store with
      sequence := Function.update store.sequence shard out.1
      keys := Function.update store.keys key out.2 }

/-- What is wanted of every state: a value that is owed is in the primary, or it is on the node
under metadata of its own generation; and a `get` during which nothing else became the latest set
has returned its value. Protected values are kept from `get`, and without `fetchOnMiss` it does
not look further than the primary. -/
structure NoLostWrite (store : KvOverflowStore κ ι β) : Prop where
  durable : ∀ key entry, (store.keys key).latest = some entry →
    (store.keys key).resident = some entry ∨ ∃ remote, (store.keys key).remote = some remote ∧
        remote.generation = entry.generation ∧ (store.keys key).node = some entry.written
  read : ∀ key reader entry result,
    (store.keys key).readers reader = .finished (some entry) (some entry) result →
    entry.written.governance = none →
    result = some entry.written.value ∨ options.fetchOnMiss = false ∧ result = none

/-- A set must not come while a delete or an unqueued put of the key is pending, and an eviction
must take the generation that the metadata is about. Every other action is safe. -/
def Safe : OverflowAction κ β → Prop
  | .key key (.setResident _ _ _ true) =>
    ∀ pending, (store.keys key).pending = some pending →
      pending.queued = true ∧ ∀ retryOnFailure, pending.mutation ≠ .delete retryOnFailure
  | .key key .evict =>
    (store.keys key).evictable store.nowMs (shardOf key) = true →
      ∀ remote, (store.keys key).remote = some remote → (store.keys key).resident.isSome = true →
        (store.keys key).overflowGenerationMatches remote.generation = true
  | _ => True

end KvOverflowStore
end ShardKv
