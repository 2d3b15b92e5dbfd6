import ShardKv.Foundations.Bytes
import ShardKv.Objects.ObjectBucket

/-!
# Writes on object buckets

Every write returns its reply together with one flag. The caller reads the flag
against whether the key held an object before the call: a raised flag means that
an object appeared where there was none, or disappeared where there was one.
-/
namespace ShardKv

variable {β σ : Type} [LinearOrder β] [LinearOrder σ]

/-- Texts of numbers and the arithmetic of scores, both taken from the standard library. -/
structure ScoreArithmetic (β σ : Type) where
  zero : σ
  add : σ → σ → σ
  isFinite : σ → Bool
  /-- The comparison `<=` of floats, which is not the order of the index. -/
  le : σ → σ → Bool
  parseI64Bytes : β → Option ℤ
  i64Bytes : ℤ → β
  parseF64Bytes : β → Option σ
  formatScore : σ → β

def i64Range (value : ℤ) : Bool := decide (-(2 ^ 63) ≤ value ∧ value < 2 ^ 63)

inductive HashFieldExpireCond
  | none
  | nx
  | xx
  | gt
  | lt
  deriving DecidableEq

def HashFieldExpireCond.allows (cond : HashFieldExpireCond) (current : Option ℕ)
    (expireAtMs : ℕ) : Bool :=
  match cond with
  | .none => true
  | .nx => current.isNone
  | .xx => current.isSome
  | .gt => current.any fun c => c < expireAtMs
  | .lt => current.all fun c => expireAtMs < c

inductive HashFieldGetExpireAction
  | keep
  | persist
  | expireAt (expireAtMs : ℕ)
  deriving DecidableEq

inductive HashFieldSetCondition
  | always
  | fnX
  | fxX
  deriving DecidableEq

def HashFieldSetCondition.allows (condition : HashFieldSetCondition) (existing requested : ℕ) :
    Bool :=
  match condition with
  | .always => true
  | .fnX => existing = 0
  | .fxX => existing = requested

inductive HashFieldSetExpireAction
  | clear
  | keepTtl
  | expireAt (expireAtMs : ℕ)
  deriving DecidableEq

structure ZAddFlags where
  nx : Bool := false
  xx : Bool := false
  gt : Bool := false
  lt : Bool := false
  ch : Bool := false
  incr : Bool := false

variable (flags : ZAddFlags) (arith : ScoreArithmetic β σ)

/-- The option flags turn a write away. -/
def ZAddFlags.refuses (score : σ) (existing : Option σ) : Bool :=
  flags.nx && existing.isSome || flags.xx && existing.isNone ||
    flags.gt && existing.any (fun old => arith.le score old) ||
    flags.lt && existing.any (fun old => arith.le old score)

def ZAddFlags.nextScore (score : σ) (existing : Option σ) : σ :=
  if flags.incr then arith.add (existing.getD arith.zero) score else score

def ZAddFlags.reply (existing : Option σ) (next : σ) : RedisObjectResult β :=
  if flags.incr then .bulk (some (arith.formatScore next))
  else
    let changed := existing.all fun old => decide (old ≠ next)
    let response := if flags.ch then changed else existing.isNone
    .integer (if response then 1 else 0)

inductive RedisObjectWriteAttempt (β σ : Type) [LinearOrder β] [LinearOrder σ]
  | complete (reply : RedisObjectResult β) (bucket : RedisObjectBucket β σ)
  | missing (bucket : RedisObjectBucket β σ)

namespace RedisObjectBucket

variable (b : RedisObjectBucket β σ) (key : β)
  (arith : ScoreArithmetic β σ) (fields : List β) (field : β) (nowMs : ℕ)

variable (kind : ObjectKind) (missing : RedisObjectResult β)

variable (edit : Contents β σ kind → RedisObjectResult β × Contents β σ kind)

/-- An edit after which an emptied object is given up. -/
def shrinkSlot : BucketWrite β σ :=
  match (b.slots kind).lookup key with
  | some object =>
    let out := edit object
    if Contents.isEmpty kind out.2 then ⟨out.1, true, b.removeSlot key kind⟩
    else ⟨out.1, false, b.putSlot key kind out.2⟩
  | none => if b.hasNon key kind then ⟨.wrongType, false, b⟩ else ⟨missing, false, b⟩

/-- An edit that keeps the object, whatever is left in it. -/
def editSlot : BucketWrite β σ :=
  match (b.slots kind).lookup key with
  | some object =>
    let out := edit object
    ⟨out.1, false, b.putSlot key kind out.2⟩
  | none => if b.hasNon key kind then ⟨.wrongType, false, b⟩ else ⟨missing, false, b⟩

/-- The first half of a create: edit what is there, or report that nothing is. -/
def editExisting :
    RedisObjectWriteAttempt β σ :=
  match (b.slots kind).lookup key with
  | some object =>
    let out := edit object
    .complete out.1 (b.putSlot key kind out.2)
  | none => if b.hasNon key kind then .complete .wrongType b else .missing b

def removeExpiredHashFieldsForWrite : RedisObjectBucket β σ :=
  if (b.hashFieldExpireAtMs.lookup key).isSome then b.removeExpiredHashFields key nowMs else b

variable (value : β)

def hset (nowMs : ℕ) : BucketWrite β σ :=
  let b := b.removeExpiredHashFieldsForWrite key nowMs
  match b.hashes.lookup key with
  | some hash =>
    ⟨.integer (if (hash.lookup field).isNone then 1 else 0), false,
      (b.putSlot key .hash (hash.insert field value)).clearHashFieldTtl key field⟩
  | none =>
    if b.hasNon key .hash then ⟨.wrongType, false, b⟩
    else ⟨.integer 1, true, b.putSlot key .hash ((∅ : FinMap β β).insert field value)⟩

def hsetExistingOrWrongtypeHashed (nowMs : ℕ) : RedisObjectWriteAttempt β σ :=
  let b := b.removeExpiredHashFieldsForWrite key nowMs
  match b.hashes.lookup key with
  | some hash =>
    .complete (.integer (if (hash.lookup field).isNone then 1 else 0))
      ((b.putSlot key .hash (hash.insert field value)).clearHashFieldTtl key field)
  | none => if b.hasNon key .hash then .complete .wrongType b else .missing b

def hsetNewUncheckedHashed : RedisObjectResult β × RedisObjectBucket β σ :=
  (.integer 1, b.putSlot key .hash ((∅ : FinMap β β).insert field value))

def hsetMany (fields : List (β × β)) (nowMs : ℕ) : BucketWrite β σ :=
  if fields.isEmpty then ⟨.integer 0, false, b⟩
  else
    let b := b.removeExpiredHashFieldsForWrite key nowMs
    match b.hashes.lookup key with
    | some hash =>
      let inserted := insertFields hash fields
      ⟨.integer inserted.1, false,
        (b.putSlot key .hash inserted.2).clearHashFieldTtls key (fields.map Prod.fst)⟩
    | none =>
      if b.hasNon key .hash then ⟨.wrongType, false, b⟩
      else
        let inserted := insertFields ∅ fields
        ⟨.integer inserted.1, true, b.putSlot key .hash inserted.2⟩

def hdel : BucketWrite β σ :=
  match (b.removeExpiredHashFieldsForWrite key nowMs).removeHashIfEmpty key with
  | (true, b) => ⟨.integer 0, true, b⟩
  | (false, b) =>
    match b.hashes.lookup key with
    | some hash =>
      let removed := (hash.lookup field).isSome
      let hash := hash.erase field
      if hash.keys.isEmpty then ⟨.integer (if removed then 1 else 0), true, b.removeSlot key .hash⟩
      else
        let b := b.putSlot key .hash hash
        ⟨.integer (if removed then 1 else 0), false,
          if removed then b.clearHashFieldTtl key field else b⟩
    | none =>
      if b.hasNon key .hash then ⟨.wrongType, false, b⟩ else ⟨.integer 0, false, b⟩

/-- The fields that a walk over `fields` finds, each removed as it is found. -/
def takeFields : FinMap β β → List β → List β × FinMap β β
  | hash, [] => ([], hash)
  | hash, field :: fields =>
    let rest := takeFields (hash.erase field) fields
    (if (hash.lookup field).isSome then field :: rest.1 else rest.1, rest.2)

def hdelMany : BucketWrite β σ :=
  match (b.removeExpiredHashFieldsForWrite key nowMs).removeHashIfEmpty key with
  | (true, b) => ⟨.integer 0, true, b⟩
  | (false, b) =>
    match b.hashes.lookup key with
    | some hash =>
      let taken := takeFields hash fields
      if taken.2.keys.isEmpty then ⟨.integer taken.1.length, true, b.removeSlot key .hash⟩
      else
        ⟨.integer taken.1.length, false,
          (b.putSlot key .hash taken.2).clearHashFieldTtls key taken.1⟩
    | none =>
      if b.hasNon key .hash then ⟨.wrongType, false, b⟩ else ⟨.integer 0, false, b⟩

def hsetnx (nowMs : ℕ) : BucketWrite β σ :=
  let b := b.removeExpiredHashFieldsForWrite key nowMs
  match b.hashes.lookup key with
  | some hash =>
    if (hash.lookup field).isSome then ⟨.integer 0, false, b⟩
    else ⟨.integer 1, false, b.putSlot key .hash (hash.insert field value)⟩
  | none =>
    if b.hasNon key .hash then ⟨.wrongType, false, b⟩
    else ⟨.integer 1, true, b.putSlot key .hash ((∅ : FinMap β β).insert field value)⟩

/-- The stored number of a field: `error` when it is not one, `ok none` when there is none. -/
def fieldNumber {ν : Type} (hash : FinMap β β) (field : β) (parse : β → Option ν) :
    Except Unit (Option ν) :=
  match hash.lookup field with
  | none => .ok none
  | some text =>
    match parse text with
    | some value => .ok (some value)
    | none => .error ()

/-- Both increments read the clock a second time, in the `hset` they end with. -/
def hincrWith {ν : Type} (setNowMs : ℕ) (parse : β → Option ν) (notANumber : String)
    (next : Option ν → Except String (β × RedisObjectResult β)) : BucketWrite β σ :=
  let b := b.removeExpiredHashFieldsForWrite key nowMs
  let store (current : Option ν) : BucketWrite β σ :=
    match next current with
    | .error text => ⟨.simple text, false, b⟩
    | .ok (text, reply) =>
      let out := b.hset key field text setNowMs
      match out.reply with
      | .wrongType => out
      | _ => { out with reply := reply }
  match b.hashes.lookup key with
  | some hash =>
    match fieldNumber hash field parse with
    | .error _ => ⟨.simple notANumber, false, b⟩
    | .ok current => store current
  | none => if b.hasNon key .hash then ⟨.wrongType, false, b⟩ else store none

def hincrby (delta : ℤ) (nowMs setNowMs : ℕ) : BucketWrite β σ :=
  b.hincrWith key field nowMs setNowMs arith.parseI64Bytes "ERR hash value is not an integer"
    fun current =>
      let value := current.getD 0 + delta
      if i64Range value then .ok (arith.i64Bytes value, .integer value)
      else .error "ERR increment or decrement would overflow"

def hincrbyfloat (delta : σ) (nowMs setNowMs : ℕ) : BucketWrite β σ :=
  b.hincrWith key field nowMs setNowMs arith.parseF64Bytes "ERR hash value is not a float"
    fun current =>
      let value := arith.add (current.getD arith.zero) delta
      if arith.isFinite value then
        .ok (arith.formatScore value, .bulk (some (arith.formatScore value)))
      else .error "ERR increment would produce NaN or Infinity"

/-- Remove fields that are known to be there; the flag tells whether the hash went with them. -/
def deleteHashFields (toDelete : List β) : Bool × RedisObjectBucket β σ :=
  if toDelete.isEmpty then (false, b)
  else
    match b.hashes.lookup key with
    | none => (false, b)
    | some hash =>
      let hash := eraseFields hash toDelete
      let b := (b.putSlot key .hash hash).clearHashFieldTtls key toDelete
      if hash.keys.isEmpty then (true, b.removeSlot key .hash) else (false, b)

/-- The start of every field-deadline write: clean up, then work on the hash if there is one. -/
def onLiveHash (nowMs : ℕ)
    (body : RedisObjectBucket β σ → FinMap β β → BucketWrite β σ) : BucketWrite β σ :=
  match b.hashes.lookup key with
  | none => if b.hasNon key .hash then ⟨.wrongType, false, b⟩ else ⟨missing, false, b⟩
  | some _ =>
    match b.removeExpiredHashIfEmpty key nowMs with
    | (true, b) => ⟨missing, true, b⟩
    | (false, b) =>
      match b.hashes.lookup key with
      | none => ⟨missing, false, b⟩
      | some hash => body b hash

/-- One code for each field, the fields to delete, and the deadlines written on the way. -/
def expireFields (hash : FinMap β β) (expireAtMs : ℕ) (cond : HashFieldExpireCond) (nowMs : ℕ) :
    RedisObjectBucket β σ → List β → List ℤ × List β × RedisObjectBucket β σ
  | b, [] => ([], [], b)
  | b, field :: fields =>
    if (hash.lookup field).isNone || b.hashFieldIsExpired key field nowMs then
      let rest := expireFields hash expireAtMs cond nowMs b fields
      (-2 :: rest.1, rest.2)
    else if !cond.allows (b.hashFieldExpiry key field) expireAtMs then
      let rest := expireFields hash expireAtMs cond nowMs b fields
      (0 :: rest.1, rest.2)
    else if expireAtMs ≤ nowMs then
      let rest := expireFields hash expireAtMs cond nowMs b fields
      (2 :: rest.1, field :: rest.2.1, rest.2.2)
    else
      let rest := expireFields hash expireAtMs cond nowMs
        (b.setHashFieldExpiry key field expireAtMs) fields
      (1 :: rest.1, rest.2)

def hashFieldExpire (expireAtMs : ℕ) (cond : HashFieldExpireCond) (nowMs : ℕ) : BucketWrite β σ :=
  b.onLiveHash key (.integerArray (fields.map fun _ => -2)) nowMs fun b hash =>
    let out := expireFields key hash expireAtMs cond nowMs b fields
    let deleted := out.2.2.deleteHashFields key out.2.1
    ⟨.integerArray out.1, deleted.1, deleted.2⟩

def persistFields (hash : FinMap β β) (nowMs : ℕ) :
    RedisObjectBucket β σ → List β → List ℤ × RedisObjectBucket β σ
  | b, [] => ([], b)
  | b, field :: fields =>
    if (hash.lookup field).isNone || b.hashFieldIsExpired key field nowMs then
      let rest := persistFields hash nowMs b fields
      (-2 :: rest.1, rest.2)
    else if (b.hashFieldExpiry key field).isSome then
      let rest := persistFields hash nowMs (b.clearHashFieldTtl key field) fields
      (1 :: rest.1, rest.2)
    else
      let rest := persistFields hash nowMs b fields
      (-1 :: rest.1, rest.2)

def hashFieldPersist : BucketWrite β σ :=
  b.onLiveHash key (.integerArray (fields.map fun _ => -2)) nowMs fun b hash =>
    let out := persistFields key hash nowMs b fields
    ⟨.integerArray out.1, false, out.2⟩

def hashFieldGetdel : BucketWrite β σ :=
  b.onLiveHash key (.array (fields.map fun _ => none)) nowMs fun b hash =>
    let deleted := b.deleteHashFields key (fields.filter fun field => (hash.lookup field).isSome)
    ⟨.array (fields.map hash.lookup), deleted.1, deleted.2⟩

def setHashFieldExpiries (expireAtMs : ℕ) : RedisObjectBucket β σ :=
  fields.foldl (fun b field => b.setHashFieldExpiry key field expireAtMs) b

def hashFieldGetex (action : HashFieldGetExpireAction) (nowMs : ℕ) : BucketWrite β σ :=
  b.onLiveHash key (.array (fields.map fun _ => none)) nowMs fun b hash =>
    let values := RedisObjectResult.array (fields.map hash.lookup)
    let existing := fields.filter fun field => (hash.lookup field).isSome
    match action with
    | .keep => ⟨values, false, b⟩
    | .persist => ⟨values, false, b.clearHashFieldTtls key existing⟩
    | .expireAt expireAtMs =>
      if expireAtMs ≤ nowMs then
        let deleted := b.deleteHashFields key existing
        ⟨values, deleted.1, deleted.2⟩
      else ⟨values, false, b.setHashFieldExpiries key existing expireAtMs⟩

/-- The writing half of `hash_field_setex`. A deadline that has already passed takes the fields
out again; when nothing else is left the hash goes too, whether or not this call created it. -/
def setexFields (hash : FinMap β β) (created : Bool) (fields : List (β × β))
    (action : HashFieldSetExpireAction) (nowMs : ℕ) : BucketWrite β σ :=
  let names := fields.map Prod.fst
  let hash := (insertFields hash fields).2
  let b := b.putSlot key .hash hash
  match action with
  | .keepTtl => ⟨.integer 1, created, b⟩
  | .clear => ⟨.integer 1, created, b.clearHashFieldTtls key names⟩
  | .expireAt expireAtMs =>
    if expireAtMs ≤ nowMs then
      let hash := eraseFields hash names
      let b := (b.putSlot key .hash hash).clearHashFieldTtls key names
      if hash.keys.isEmpty then ⟨.integer 1, true, b.removeSlot key .hash⟩
      else ⟨.integer 1, created, b⟩
    else ⟨.integer 1, created, b.setHashFieldExpiries key names expireAtMs⟩

def hashFieldSetex (fields : List (β × β)) (condition : HashFieldSetCondition)
    (action : HashFieldSetExpireAction) (nowMs : ℕ) : BucketWrite β σ :=
  if fields.isEmpty then ⟨.integer 0, false, b⟩
  else
    -- Unlike the other field-deadline writes, this one goes on after it removed an emptied hash.
    let b := (b.removeExpiredHashIfEmpty key nowMs).2
    match b.hashes.lookup key with
    | some hash =>
      let existing := (fields.filter fun entry => (hash.lookup entry.1).isSome).length
      if !condition.allows existing fields.length then
        ⟨.integer 0, false, b⟩
      else b.setexFields key hash false fields action nowMs
    | none =>
      if b.hasNon key .hash then ⟨.wrongType, false, b⟩
      else if !condition.allows 0 fields.length then ⟨.integer 0, false, b⟩
      else b.setexFields key ∅ true fields action nowMs

def pushList (list values : List β) (front : Bool) : List β :=
  if front then values.reverse ++ list else list ++ values

variable (values : List β) (front : Bool)

def pushListExistingOrWrongtypeHashed :
    RedisObjectWriteAttempt β σ :=
  if values.isEmpty then .complete (.integer 0) b
  else b.editExisting key .list fun list =>
    (.integer (pushList list values front).length, pushList list values front)

def pushListNewUncheckedHashed :
    RedisObjectResult β × RedisObjectBucket β σ :=
  (.integer values.length, b.putSlot key .list (pushList [] values front))

def pushListExistingHashed : BucketWrite β σ :=
  if values.isEmpty then ⟨.integer 0, false, b⟩
  else b.editSlot key .list (.integer 0) fun list =>
    (.integer (pushList list values front).length, pushList list values front)

def popOne (list : List β) : Option β × List β :=
  if front then (list.head?, list.tail) else (list.getLast?, list.dropLast)

def popMany (front : Bool) : ℕ → List β → List β × List β
  | 0, list => ([], list)
  | count + 1, list =>
    match popOne front list with
    | (none, list) => ([], list)
    | (some value, list) =>
      let rest := popMany front count list
      (value :: rest.1, rest.2)

def popList : BucketWrite β σ := b.shrinkSlot key .list (.bulk none) fun list =>
    (.bulk (popOne front list).1, (popOne front list).2)

def popListCount (count : ℕ) (front : Bool) : BucketWrite β σ :=
  if count = 0 then ⟨.array [], false, b⟩
  else b.shrinkSlot key .list (.bulk none) fun list =>
    (.array ((popMany front count list).1.map some), (popMany front count list).2)

def normalizeIndex (index : ℤ) (len : ℕ) : Option ℕ :=
  if len = 0 then none
  else
    let index := if index < 0 then (len : ℤ) + index else index
    if 0 ≤ index ∧ index < len then some index.toNat else none

def lset (index : ℤ) (value : β) : BucketWrite β σ :=
  b.editSlot key .list (.simple "ERR no such key") fun list =>
    match normalizeIndex index list.length with
    | none => (.simple "ERR index out of range", list)
    | some index => (.simple "OK", list.set index value)

/-- Remove up to `limit` occurrences from the front, counting them. -/
def removeMatching (value : β) : ℕ → List β → ℕ × List β
  | _, [] => (0, [])
  | 0, list => (0, list)
  | limit + 1, item :: list =>
    if item = value then
      let rest := removeMatching value limit list
      (rest.1 + 1, rest.2)
    else
      let rest := removeMatching value (limit + 1) list
      (rest.1, item :: rest.2)

def lrem (count : ℤ) (value : β) : BucketWrite β σ :=
  b.shrinkSlot key .list (.integer 0) fun list =>
    if 0 ≤ count then
      let out := removeMatching value (if count = 0 then 2 ^ 64 - 1 else count.toNat) list
      (.integer out.1, out.2)
    else
      -- the walk from the back
      let out := removeMatching value count.natAbs list.reverse
      (.integer out.1, out.2.reverse)

def ltrim (start stop : ℤ) : BucketWrite β σ := b.shrinkSlot key .list (.simple "OK") fun list =>
    match normalizeRange start stop list.length with
    | none => (.simple "OK", [])
    | some (start, stop) => (.simple "OK", (list.drop start).take (stop - start + 1))

def linsert (before : Bool) (pivot value : β) : BucketWrite β σ :=
  b.editSlot key .list (.integer 0) fun list =>
    match list.findIdx? fun item => item = pivot with
    | none => (.integer (-1), list)
    | some index =>
      let list := list.insertIdx (if before then index else index + 1) value
      (.integer list.length, list)

variable (members : List β)

def saddExistingOrWrongtypeHashed : RedisObjectWriteAttempt β σ :=
  if members.isEmpty then .complete (.integer 0) b
  else b.editExisting key .set fun set =>
    (.integer (insertMembers set members).1, (insertMembers set members).2)

def saddNewUncheckedHashed : RedisObjectResult β × RedisObjectBucket β σ :=
  let inserted := insertMembers [] members
  (.integer inserted.1, b.putSlot key .set inserted.2)

/-- The members that a walk over `members` finds, each removed as it is found. -/
def removeMembers : List β → List β → ℕ × List β
  | set, [] => (0, set)
  | set, member :: members =>
    let rest := removeMembers (set.erase member) members
    ((if member ∈ set then 1 else 0) + rest.1, rest.2)

def srem : BucketWrite β σ := b.shrinkSlot key .set (.integer 0) fun set =>
    (.integer (removeMembers set members).1, (removeMembers set members).2)

def spop (count : Option ℕ) : BucketWrite β σ :=
  b.shrinkSlot key .set (if count.isSome then .array [] else .bulk none) fun set =>
    let members := set.take (count.getD 1)
    (if count.isNone then .bulk members.head? else .array (members.map some),
      (removeMembers set members).2)

def zaddExistingOrWrongtypeHashed (score : σ) (member : β) : RedisObjectWriteAttempt β σ :=
  b.editExisting key .zset fun zset =>
    (.integer (if (zset.score member).isNone then 1 else 0), zset.insert member score)

def zaddNewUncheckedHashed (score : σ) (member : β) : RedisObjectResult β × RedisObjectBucket β σ :=
  (.integer 1, b.putSlot key .zset (ScoreList.empty.insert member score))

def zaddCond (flags : ZAddFlags) (score : σ) (member : β) : BucketWrite β σ :=
  if b.hasNon key .zset then ⟨.wrongType, false, b⟩
  else
    let slot := b.zsets.lookup key
    let existing := slot.bind fun zset => zset.score member
    let next := flags.nextScore arith score existing
    if flags.refuses arith score existing then
      ⟨if flags.incr then .bulk none else .integer 0, false, b⟩
    else if flags.incr && !arith.isFinite next then
      ⟨.simple "ERR resulting score is not finite", false, b⟩
    else
      ⟨flags.reply arith existing next, slot.isNone,
        b.putSlot key .zset ((slot.getD .empty).insert member next)⟩

def zincrby (delta : σ) (member : β) : BucketWrite β σ :=
  b.zaddCond key arith { ch := true, incr := true } delta member

/-- The members that a walk over `members` finds, each removed as it is found. -/
def zremMembers : ScoreList σ β → List β → ℕ × ScoreList σ β
  | zset, [] => (0, zset)
  | zset, member :: members =>
    let rest := zremMembers (zset.remove member) members
    ((if (zset.score member).isSome then 1 else 0) + rest.1, rest.2)

def zremMany : BucketWrite β σ := b.shrinkSlot key .zset (.integer 0) fun zset =>
    (.integer (zremMembers zset members).1, (zremMembers zset members).2)

def zrem (member : β) : BucketWrite β σ := b.zremMany key [member]

def zpop (count : ℕ) (max : Bool) : BucketWrite β σ :=
  b.shrinkSlot key .zset (.array []) fun zset =>
    (.array ((zset.pop count max).1.flatMap fun entry =>
      [some entry.1, some (arith.formatScore entry.2)]), (zset.pop count max).2)

end RedisObjectBucket
end ShardKv
