import ShardKv.Objects.BucketOps

/-!
# Whole histories of the object store

A history is a list of commands on a shared store, each with its clock readings
and the answers of the string tables.
-/
namespace ShardKv

variable {ι β σ : Type} [DecidableEq ι] [LinearOrder β] [LinearOrder σ]

inductive ObjectOp (β σ : Type) [LinearOrder β] [LinearOrder σ]
  | read (key : β) (op : RedisObjectBucket β σ → RedisObjectResult β)
  | lookup (key : β) (op : RedisObjectBucket β σ → Option (RedisObjectResult β))
  | write (key : β) (command : ObjectWrite β σ)
  | create (key : β) (command : ObjectCreate β σ)
  | pushListExisting (key : β) (values : List β) (front : Bool)
  | exists (key : β)
  | pttl (key : β)
  | persist (key : β)
  | expire (key : β) (expireAtMs : ℕ)
  | metadata (key : β)
  | delete (key : β)
  | setString (key : β)
  | setStringKeepTtl (key : β)
  | setVector (key : β)
  | setObject (key : β) (value : RedisObjectValue β σ) (ttlMs : Option ℕ)
  | clone (key : β)
  | rename (source dest : β) (nx : Bool)
  | restore (key : β) (ttl : ℕ) (replace absttl : Bool)
      (payload : Option (RedisObjectStore.DumpRestoreValue β σ))

/-- A command with its clock readings and the answers of its surroundings. -/
structure ObjectCall (β σ : Type) [LinearOrder β] [LinearOrder σ] where
  op : ObjectOp β σ
  clock : ℕ → ℕ := fun _ => 0
  env : ObjectSurroundings β := {}

namespace ObjectCall

variable (routing : ObjectRouting ι β) (arith : ScoreArithmetic β σ)

/-- The reading under the bucket lock is `clock 0`; readings taken before it, or by the bucket
itself, come after that in the numbering. -/
def apply (store : RedisObjectStore ι β σ) (call : ObjectCall β σ) : RedisObjectStore ι β σ :=
  let clock := call.clock
  match call.op with
  | .read key op =>
    (store.objectReadRouted call.env (routing.routeKey key) key (clock 0) op).2
  | .lookup key op => (store.objectLookup (routing.routeKey key) key (clock 0) op).2
  | .write key command =>
    (store.objectWriteRouted call.env (routing.routeKey key) key (clock 0)
      (command.run arith key (clock 1) (clock 2))).2
  | .create key command =>
    (store.objectCreateHashed call.env (routing.routeKey key) key (clock 0)
      (command.existing key · (clock 1)) (command.new key)).2
  | .pushListExisting key values front =>
    (store.pushListExistingHashed call.env (routing.routeKey key) key values front (clock 1)
      (clock 0)).2
  | .exists key => (store.keyExists call.env routing key (clock 0) (clock 1)).2
  | .pttl key => (store.pttlMillis routing key (clock 0)).2
  | .persist key => (store.persist call.env routing key (clock 0)).2
  | .expire key expireAtMs => (store.expire call.env routing key expireAtMs (clock 0)).2
  | .metadata key =>
    (store.redisObjectMetadata routing key (clock 0) (clock 1) fun b => b.entryExpireAt key).2
  | .delete key => (store.delete call.env routing key).2
  | .setString key => store.setValueBytesRouted call.env routing (routing.routeKey key) key
  | .setStringKeepTtl key => (store.setSliceKeepTtl call.env routing key (clock 0)).2
  | .setVector key => (store.setPinnedVectorValue call.env routing key).2
  | .setObject key value ttlMs => store.setObjectValue call.env routing key value ttlMs (clock 0)
  | .clone key => (store.cloneObjectValue routing key (clock 0) (clock 1) (clock 2)).2
  | .rename source dest nx => (store.renameKey call.env routing clock source dest nx).2
  | .restore key ttl replace absttl payload =>
    (store.restoreKey call.env routing clock key ttl replace absttl payload).2

/-- One shard, and scores that are whole numbers. -/
def oneShard : ObjectRouting Unit ℕ := ⟨fun _ => ⟨(), 0⟩, fun _ => ⟨(), 0⟩⟩

def wholeScores : ScoreArithmetic ℕ ℕ where
  zero := 0
  add := (· + ·)
  isFinite _ := true
  le score score' := decide (score ≤ score')
  parseI64Bytes text := some text
  i64Bytes := Int.toNat
  parseF64Bytes := some
  formatScore score := score

end ObjectCall
end ShardKv
