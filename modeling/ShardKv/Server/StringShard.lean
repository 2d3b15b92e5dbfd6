import ShardKv.Server.Transactions
import ShardKv.Storage.FlatMapRead

/-!
# Transactions over one shard of strings

The flat map of a single shard, with a few string commands, as the store that
transactions run against.
-/
namespace ShardKv

structure StringShard where
  map : FlatMap := {}
  nowMs : ℕ := 0

inductive StringCommand where
  | get (key : Bytes)
  | set (key value : Bytes)
  | del (key : Bytes)
  | pexpireat (key : Bytes) (deadline : ℕ)
  deriving DecidableEq

namespace StringShard

def execute (command : StringCommand) (shard : StringShard) : StringShard × Option Bytes :=
  match command with
  | .get key =>
    let (value, map) := shard.map.get {} key shard.nowMs
    ({ shard with map }, value)
  | .set key value => ({ shard with map := shard.map.setHashed {} key value none shard.nowMs }, none)
  | .del key => ({ shard with map := (shard.map.deleteHashed key).2 }, none)
  | .pexpireat key deadline =>
    ({ shard with map := (shard.map.expire key deadline shard.nowMs).2 }, none)

/-- Value, deadline and policy of a key that has not expired. -/
def content (shard : StringShard) (key : Bytes) : Option (Bytes × Option ℕ × Option Bytes) :=
  ((shard.map.entries.lookup key).filter fun entry => !entry.isExpired shard.nowMs).map
    fun entry => (entry.value, entry.expireAtMs, entry.governance)

/-- A server with one shard: every command has the gate of shard zero. -/
def env (mode : TransactionMode) : TransactionEnv StringShard StringCommand Empty (Option Bytes) where
  mode := some mode
  getValueBytes := fun shard key => (shard.map.get {} key shard.nowMs).1
  cloneObjectValue := fun _ _ => none
  execute := execute
  commandShards := fun _ => [0]
  fastRequestShards := fun _ => [0]
  elapse := fun millis shard => { shard with nowMs := shard.nowMs + millis }

end StringShard
end ShardKv
