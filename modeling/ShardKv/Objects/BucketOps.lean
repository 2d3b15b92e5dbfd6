import ShardKv.Objects.ObjectLifecycle

/-!
# Operations on a bucket

An operation on a bucket is what the store does with it under its lock. A create
changes the object that is there, and makes a new one only when the bucket has none
for the key and the string tables have none either.
-/
namespace ShardKv

variable {β σ : Type} [LinearOrder β] [LinearOrder σ]

/-- The commands that write through the bucket of their key. -/
inductive ObjectWrite (β σ : Type) [LinearOrder β] [LinearOrder σ]
  | hsetMany (fields : List (β × β))
  | hdel (field : β)
  | hdelMany (fields : List β)
  | hsetnx (field value : β)
  | hincrby (field : β) (delta : ℤ)
  | hincrbyfloat (field : β) (delta : σ)
  | hashFieldExpire (fields : List β) (expireAtMs : ℕ) (cond : HashFieldExpireCond)
  | hashFieldPersist (fields : List β)
  | hashFieldGetdel (fields : List β)
  | hashFieldGetex (fields : List β) (action : HashFieldGetExpireAction)
  | hashFieldSetex (fields : List (β × β)) (condition : HashFieldSetCondition)
      (action : HashFieldSetExpireAction)
  | popList (front : Bool)
  | popListCount (count : ℕ) (front : Bool)
  | lset (index : ℤ) (value : β)
  | lrem (count : ℤ) (value : β)
  | ltrim (start stop : ℤ)
  | linsert (before : Bool) (pivot value : β)
  | srem (members : List β)
  | spop (count : Option ℕ)
  | zaddCond (flags : ZAddFlags) (score : σ) (member : β)
  | zincrby (delta : σ) (member : β)
  | zrem (member : β)
  | zremMany (members : List β)
  | zpop (count : ℕ) (max : Bool)

/-- The commands that make their object if there is none. -/
inductive ObjectCreate (β σ : Type) [LinearOrder β] [LinearOrder σ]
  | hset (field value : β)
  | pushList (values : List β) (front : Bool)
  | sadd (members : List β)
  | zadd (score : σ) (member : β)

inductive BucketOp (β σ : Type) [LinearOrder β] [LinearOrder σ]
  | deleteAny (key : β)
  | deleteExpired (key : β) (nowMs : ℕ)
  | removeExpiredHashIfEmpty (key : β) (nowMs : ℕ)
  | purge (key : β) (nowMs : ℕ)
  | purgeForWrite (key : β) (nowMs : ℕ)
  | expire (key : β) (expireAtMs nowMs : ℕ)
  | persist (key : β) (nowMs : ℕ)
  | ttlMillis (key : β) (nowMs : ℕ)
  | insertValue (key : β) (value : RedisObjectValue β σ)
  | hset (key field value : β) (nowMs : ℕ)
  | pushListExisting (key : β) (values : List β) (front : Bool)
  | write (key : β) (command : ObjectWrite β σ) (nowMs setNowMs : ℕ)
  | create (key : β) (command : ObjectCreate β σ) (nowMs : ℕ) (stringExists : Bool)

/-- The one write whose flag can be wrong. -/
def ObjectWrite.isSetex : ObjectWrite β σ → Bool
  | .hashFieldSetex .. => true
  | _ => false

def ObjectWrite.run (command : ObjectWrite β σ) (arith : ScoreArithmetic β σ) (key : β)
    (nowMs setNowMs : ℕ) (b : RedisObjectBucket β σ) : BucketWrite β σ :=
  match command with
  | hsetMany fields => b.hsetMany key fields nowMs
  | hdel field => b.hdel key field nowMs
  | hdelMany fields => b.hdelMany key fields nowMs
  | hsetnx field value => b.hsetnx key field value nowMs
  | hincrby field delta => b.hincrby key arith field delta nowMs setNowMs
  | hincrbyfloat field delta => b.hincrbyfloat key arith field delta nowMs setNowMs
  | hashFieldExpire fields expireAtMs cond => b.hashFieldExpire key fields expireAtMs cond nowMs
  | hashFieldPersist fields => b.hashFieldPersist key fields nowMs
  | hashFieldGetdel fields => b.hashFieldGetdel key fields nowMs
  | hashFieldGetex fields action => b.hashFieldGetex key fields action nowMs
  | hashFieldSetex fields condition action => b.hashFieldSetex key fields condition action nowMs
  | popList front => b.popList key front
  | popListCount count front => b.popListCount key count front
  | lset index value => b.lset key index value
  | lrem count value => b.lrem key count value
  | ltrim start stop => b.ltrim key start stop
  | linsert before pivot value => b.linsert key before pivot value
  | srem members => b.srem key members
  | spop count => b.spop key count
  | zaddCond flags score member => b.zaddCond key arith flags score member
  | zincrby delta member => b.zincrby key arith delta member
  | zrem member => b.zrem key member
  | zremMany members => b.zremMany key members
  | zpop count max => b.zpop key arith count max

namespace ObjectCreate

variable (command : ObjectCreate β σ) (key : β) (b : RedisObjectBucket β σ)

def existing (nowMs : ℕ) : RedisObjectWriteAttempt β σ :=
  match command with
  | hset field value => b.hsetExistingOrWrongtypeHashed key field value nowMs
  | pushList values front => b.pushListExistingOrWrongtypeHashed key values front
  | sadd members => b.saddExistingOrWrongtypeHashed key members
  | zadd score member => b.zaddExistingOrWrongtypeHashed key score member

def new : RedisObjectResult β × RedisObjectBucket β σ :=
  match command with
  | hset field value => b.hsetNewUncheckedHashed key field value
  | pushList values front => b.pushListNewUncheckedHashed key values front
  | sadd members => b.saddNewUncheckedHashed key members
  | zadd score member => b.zaddNewUncheckedHashed key score member

end ObjectCreate

namespace RedisObjectBucket

/-- `object_create_hashed` behind its clean-up. -/
def orCreate (attempt : RedisObjectWriteAttempt β σ) (stringExists : Bool)
    (create : RedisObjectBucket β σ → RedisObjectResult β × RedisObjectBucket β σ) :
    RedisObjectBucket β σ :=
  match attempt with
  | .complete _ b => b
  | .missing b => if stringExists then b else (create b).2

variable (arith : ScoreArithmetic β σ)

def run (b : RedisObjectBucket β σ) : BucketOp β σ → RedisObjectBucket β σ
  | .deleteAny key => (b.deleteAny key).2
  | .deleteExpired key nowMs => (b.deleteExpired key nowMs).2
  | .removeExpiredHashIfEmpty key nowMs => (b.removeExpiredHashIfEmpty key nowMs).2
  | .purge key nowMs => (b.purge key nowMs).2
  | .purgeForWrite key nowMs => (b.purgeForWrite key nowMs).2
  | .expire key expireAtMs nowMs => (b.expire key expireAtMs nowMs).2
  | .persist key nowMs => (b.persist key nowMs).2
  | .ttlMillis key nowMs => (b.ttlMillis key nowMs).2
  | .insertValue key value => (b.insertValue key value).2
  | .hset key field value nowMs => (b.hset key field value nowMs).bucket
  | .pushListExisting key values front => (b.pushListExistingHashed key values front).bucket
  | .write key command nowMs setNowMs => (command.run arith key nowMs setNowMs b).bucket
  | .create key command nowMs stringExists =>
    orCreate (command.existing key b nowMs) stringExists (command.new key)

end RedisObjectBucket
end ShardKv
