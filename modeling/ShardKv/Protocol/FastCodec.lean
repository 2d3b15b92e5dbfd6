import ShardKv.Protocol.FastCommandKind
import ShardKv.Protocol.FastFields

/-!
# Native requests and responses

A frame has a header of eight bytes and a body whose length is in the header. The
body of a request starts with the routing fields that the flags announce; the rest
is read by the opcode, or as a compact argument list when the flags say so.

Floating point numbers occur with their bit patterns only: they are written and read
as words.
-/
namespace ShardKv

open FastField

inductive FastCommand where
  | ping (payload : Option Bytes)
  | auth
  | hello (proto : Option UInt64)
  | select (db : UInt64)
  | quit
  | echo (payload : Bytes)
  | info
  | command
  | commandDocs
  | configGet (patterns : List Bytes)
  | dbSize
  | time
  | clientGetName
  | clientSetName (name : Bytes)
  | clientId
  | clientList
  | clientKill
  | get (key : Bytes)
  | set (key value : Bytes)
  | setEx (key value : Bytes) (ttlMs : UInt64)
  | getEx (key : Bytes) (ttlMs : UInt64)
  | delete (key : Bytes)
  | existsKey (key : Bytes)
  | ttl (key : Bytes)
  | expire (key : Bytes) (ttlMs : UInt64)
  | mGet (keys : List Bytes)
  | mSet (items : List (Bytes × Bytes))
  | hSet (key field value : Bytes)
  | hGet (key field : Bytes)
  | hDel (key field : Bytes)
  | hLen (key : Bytes)
  | hMGet (key : Bytes) (fields : List Bytes)
  | lPush (key : Bytes) (values : List Bytes)
  | rPush (key : Bytes) (values : List Bytes)
  | lPop (key : Bytes)
  | rPop (key : Bytes)
  | lLen (key : Bytes)
  | lIndex (key : Bytes) (index : Int64)
  | lRange (key : Bytes) (start stop : Int64)
  | sAdd (key : Bytes) (members : List Bytes)
  | sRem (key : Bytes) (members : List Bytes)
  | sIsMember (key member : Bytes)
  | sCard (key : Bytes)
  | sMembers (key : Bytes)
  | zAdd (key : Bytes) (score : UInt64) (member : Bytes)
  | zRem (key member : Bytes)
  | zScore (key member : Bytes)
  | zCard (key : Bytes)
  | zRange (key : Bytes) (start stop : Int64)
  | respCommand (parts : List Bytes)
  | redisCommand (kind : FastCommandKind) (args : List Bytes)
  | nativeRedisCommand (command : Bytes) (args : List Bytes)
  deriving DecidableEq

structure FastRequest where
  keyHash : Option UInt64
  routeShard : Option UInt32
  keyTag : Option UInt64
  command : FastCommand
  deriving DecidableEq

inductive FastResponse where
  | ok
  | null
  | error (message : Bytes)
  | integer (value : Int64)
  | value (bytes : Bytes)
  | boolean (value : Bool)
  | array (values : List (Option Bytes))
  | float (bits : UInt64)
  | nativeFrame (bytes : Bytes)
  deriving DecidableEq

namespace FastCodec

variable (kind : FastCommandKind)

def fastRequestMagic : UInt8 := 0xFA

def fastResponseMagic : UInt8 := 0xFB

def fastProtocolVersion : UInt8 := 2

def fastFlagKeyHash : UInt8 := 0x01

def fastFlagRouteShard : UInt8 := 0x02

def fastFlagKeyTag : UInt8 := 0x04

def fastFlagRedisCommandArgs : UInt8 := 0x08

def requestHeaderLen : ℕ := 8

def responseHeaderLen : ℕ := 8

def hexDigit (n : ℕ) : Char := "0123456789abcdef".toList.getD n '0'

/-- A byte as `0x` and two digits. -/
def hexByte (byte : UInt8) : String :=
  String.ofList ['0', 'x', hexDigit (byte.toNat / 16), hexDigit (byte.toNat % 16)]

def fromU8 (value : UInt8) : Except String FastCommandKind :=
  match FastCommandKind.fromOpcode value.toNat with
  | some kind => .ok kind
  | none => .error s!"unsupported fast command id: {value}"

def ensureFinished (field : String) : ByteReader Unit := fun body =>
  if body ≠ [] then .error s!"{field} has trailing bytes" else .ok ((), body)

/-- A routing field, when its flag is set. -/
def takeFlagged {α : Type} (flagged : Bool) (take : ByteReader α) : ByteReader (Option α) :=
  if flagged then some <$> take else pure none

/-- Everything that is left; nothing counts as no payload. -/
def takePayload : ByteReader (Option Bytes) := fun body =>
  .ok (if body = [] then none else some body, [])

def takeHelloProto : ByteReader (Option UInt64) := fun body =>
  if 8 ≤ body.length then (some <$> takeU64 "fast HELLO proto") body else .ok (none, body)

/-- The body of a request with compact arguments. -/
def takeRedisCommand : ByteReader FastCommand :=
  if kind.redisName = none ∧ kind ≠ .nativeRedisCommand then
    let opcode := kind.opcode
    throw s!"fast command id {opcode} is not a Redis command opcode"
  else if kind = .nativeRedisCommand then do
    let name ← takeLenPrefixedSlice "fast native Redis command name"
    let args ← takeCompactLenPrefixedList "fast native Redis command arguments"
    return .nativeRedisCommand name args
  else
    .redisCommand kind <$> takeCompactLenPrefixedList "fast Redis command arguments"

/-- Two positions and a key. -/
def takeRange (make : Bytes → Int64 → Int64 → FastCommand) (start stop key : String) :
    ByteReader FastCommand := do
  let start ← takeI64 start
  let stop ← takeI64 stop
  let key ← takeLenPrefixedSlice key
  return make key start stop

/-- A time to live and a key. -/
def takeTimed (make : Bytes → UInt64 → FastCommand) (ttl key : String) : ByteReader FastCommand := do
  let ttlMs ← takeU64 ttl
  let key ← takeLenPrefixedSlice key
  return make key ttlMs

/-- A word and two byte strings. -/
def takeWordPair (make : Bytes → Bytes → UInt64 → FastCommand) (word pair : String) :
    ByteReader FastCommand := do
  let word ← takeU64 word
  let item ← takeKeyValue pair
  return make item.1 item.2 word

def makeZAdd (key member : Bytes) (score : UInt64) : FastCommand := .zAdd key score member

/-- A position and a key. -/
def takeIndexed (make : Bytes → Int64 → FastCommand) (index key : String) :
    ByteReader FastCommand := do
  let index ← takeI64 index
  let key ← takeLenPrefixedSlice key
  return make key index

/-- The typed body of a command. -/
def takeCommand : ByteReader FastCommand :=
  match kind with
  | .ping => .ping <$> takePayload
  | .auth => pure .auth
  | .hello => .hello <$> takeHelloProto
  | .select => .select <$> takeU64 "fast SELECT db"
  | .quit => pure .quit
  | .echo => .echo <$> takeLenPrefixedSlice "fast ECHO payload"
  | .info => pure .info
  | .command => pure .command
  | .commandDocs => pure .commandDocs
  | .configGet => .configGet <$> takeLenPrefixedList "fast CONFIG GET patterns"
  | .dbSize => pure .dbSize
  | .time => pure .time
  | .clientGetName => pure .clientGetName
  | .clientSetName => .clientSetName <$> takeLenPrefixedSlice "fast CLIENT SETNAME name"
  | .clientId => pure .clientId
  | .clientList => pure .clientList
  | .clientKill => pure .clientKill
  | .get => .get <$> takeLenPrefixedSlice "fast GET key"
  | .set => (fun item => .set item.1 item.2) <$> takeKeyValue "fast SET"
  | .setEx => takeWordPair .setEx "fast SETEX ttl" "fast SETEX"
  | .getEx => takeTimed .getEx "fast GETEX ttl" "fast GETEX key"
  | .delete => .delete <$> takeLenPrefixedSlice "fast DELETE key"
  | .existsKey => .existsKey <$> takeLenPrefixedSlice "fast EXISTS key"
  | .ttl => .ttl <$> takeLenPrefixedSlice "fast TTL key"
  | .expire => takeTimed .expire "fast EXPIRE ttl" "fast EXPIRE key"
  | .mGet => .mGet <$> takeLenPrefixedList "fast MGET keys"
  | .mSet => .mSet <$> takeKeyValueList "fast MSET items"
  | .hSet => (fun item => .hSet item.1 item.2.1 item.2.2) <$> takeKeyFieldValue "fast HSET"
  | .hGet => (fun item => .hGet item.1 item.2) <$> takeKeyField "fast HGET"
  | .hDel => (fun item => .hDel item.1 item.2) <$> takeKeyField "fast HDEL"
  | .hLen => .hLen <$> takeLenPrefixedSlice "fast HLEN key"
  | .hMGet => (fun item => .hMGet item.1 item.2) <$> takeKeyList "fast HMGET"
  | .lPush => (fun item => .lPush item.1 item.2) <$> takeKeyList "fast LPUSH"
  | .rPush => (fun item => .rPush item.1 item.2) <$> takeKeyList "fast RPUSH"
  | .lPop => .lPop <$> takeLenPrefixedSlice "fast LPOP key"
  | .rPop => .rPop <$> takeLenPrefixedSlice "fast RPOP key"
  | .lLen => .lLen <$> takeLenPrefixedSlice "fast LLEN key"
  | .lIndex => takeIndexed .lIndex "fast LINDEX index" "fast LINDEX key"
  | .lRange => takeRange .lRange "fast LRANGE start" "fast LRANGE stop" "fast LRANGE key"
  | .sAdd => (fun item => .sAdd item.1 item.2) <$> takeKeyList "fast SADD"
  | .sRem => (fun item => .sRem item.1 item.2) <$> takeKeyList "fast SREM"
  | .sIsMember => (fun item => .sIsMember item.1 item.2) <$> takeKeyField "fast SISMEMBER"
  | .sCard => .sCard <$> takeLenPrefixedSlice "fast SCARD key"
  | .sMembers => .sMembers <$> takeLenPrefixedSlice "fast SMEMBERS key"
  | .zAdd => takeWordPair makeZAdd "fast ZADD score" "fast ZADD"
  | .zRem => (fun item => .zRem item.1 item.2) <$> takeKeyField "fast ZREM"
  | .zScore => (fun item => .zScore item.1 item.2) <$> takeKeyField "fast ZSCORE"
  | .zCard => .zCard <$> takeLenPrefixedSlice "fast ZCARD key"
  | .zRange => takeRange .zRange "fast ZRANGE start" "fast ZRANGE stop" "fast ZRANGE key"
  | .respCommand => .respCommand <$> takeLenPrefixedList "fast RESP command parts"
  | kind =>
    if !kind.isGenericRedisOpcode then
      let opcode := kind.opcode
      throw s!"fast command id {opcode} has no request decoder"
    else .redisCommand kind <$> takeCompactLenPrefixedList "fast Redis command arguments"

/-- The part of a body that the flags and the opcode decide about. -/
def takeCommandBody (flags : UInt8) : ByteReader FastCommand :=
  if flags &&& fastFlagRedisCommandArgs ≠ 0 then takeRedisCommand kind else takeCommand kind

def takeRequest (flags : UInt8) : ByteReader FastRequest := do
  let keyHash ← takeFlagged (flags &&& fastFlagKeyHash ≠ 0) (takeU64 "fast key hash")
  let routeShard ← takeFlagged (flags &&& fastFlagRouteShard ≠ 0) (takeU32 "fast route shard")
  let keyTag ← takeFlagged (flags &&& fastFlagKeyTag ≠ 0) (takeU64 "fast key tag")
  let parsed ← takeCommandBody kind flags
  ensureFinished "fast request"
  return { keyHash, routeShard, keyTag, command := parsed }

/-- The frame at the front of a buffer with a whole header. -/
def decodeRequestFrame (buffer : Bytes) : Except String (Option (FastRequest × ℕ)) :=
  let flags := buffer.getD 3 0
  let bodyLen := leValue (byteSlice buffer 4 4)
  let frameLen := requestHeaderLen + bodyLen
  if flags &&& ~~~(fastFlagKeyHash ||| fastFlagRouteShard ||| fastFlagKeyTag |||
      fastFlagRedisCommandArgs) ≠ 0 then
    let shown := hexByte flags
    .error s!"unsupported fast flags: {shown}"
  else if buffer.length < frameLen then .ok none
  else (takeRequest kind flags (byteSlice buffer requestHeaderLen bodyLen)).map fun read =>
    some (read.1, frameLen)

/-- The request at the front of the buffer and the length of its frame; `none` asks for more. -/
def decodeRequest (buffer : Bytes) : Except String (Option (FastRequest × ℕ)) :=
  if buffer = [] then .ok none
  else if buffer.getD 0 0 ≠ fastRequestMagic then .error "invalid fast request magic byte"
  else if buffer.length < requestHeaderLen then .ok none
  else
    let version := buffer.getD 1 0
    if version ≠ fastProtocolVersion then .error s!"unsupported fast protocol version: {version}"
    else
      match fromU8 (buffer.getD 2 0) with
      | .error message => .error message
      | .ok kind => decodeRequestFrame kind buffer

def encodeCommand : FastCommand → Bytes
  | .ping payload => payload.getD []
  | .auth | .quit | .info | .command | .commandDocs | .dbSize | .time | .clientGetName | .clientId
  | .clientList | .clientKill => []
  | .hello proto => proto.elim [] fun proto => leBytes 8 proto.toNat
  | .select db => leBytes 8 db.toNat
  | .echo payload => encodeLenPrefixed payload
  | .configGet patterns => encodeLenPrefixedList patterns
  | .clientSetName name => encodeLenPrefixed name
  | .get key | .delete key | .existsKey key | .ttl key => encodeLenPrefixed key
  | .set key value => encodeKeyValue (key, value)
  | .setEx key value ttlMs => leBytes 8 ttlMs.toNat ++ encodeKeyValue (key, value)
  | .getEx key ttlMs | .expire key ttlMs => leBytes 8 ttlMs.toNat ++ encodeLenPrefixed key
  | .mGet keys => encodeLenPrefixedList keys
  | .mSet items => encodeKeyValueList items
  | .hSet key field value => encodeKeyFieldValue key field value
  | .hGet key field | .hDel key field | .sIsMember key field | .zRem key field
  | .zScore key field => encodeKeyField key field
  | .hLen key | .lPop key | .rPop key | .lLen key | .sCard key | .sMembers key
  | .zCard key => encodeLenPrefixed key
  | .hMGet key fields => encodeKeyList key fields
  | .lPush key values | .rPush key values => encodeKeyList key values
  | .lIndex key index => leBytes 8 index.toUInt64.toNat ++ encodeLenPrefixed key
  | .lRange key start stop | .zRange key start stop =>
    leBytes 8 start.toUInt64.toNat ++ leBytes 8 stop.toUInt64.toNat ++ encodeLenPrefixed key
  | .sAdd key members | .sRem key members => encodeKeyList key members
  | .zAdd key score member => leBytes 8 score.toNat ++ encodeKeyField key member
  | .respCommand parts => encodeLenPrefixedList parts
  | .redisCommand _ args => encodeCompactLenPrefixedList args
  | .nativeRedisCommand command args =>
    encodeLenPrefixed command ++ encodeCompactLenPrefixedList args

end FastCodec

def FastCommand.kind : FastCommand → FastCommandKind
  | .ping _ => .ping
  | .auth => .auth
  | .hello _ => .hello
  | .select _ => .select
  | .quit => .quit
  | .echo _ => .echo
  | .info => .info
  | .command => .command
  | .commandDocs => .commandDocs
  | .configGet _ => .configGet
  | .dbSize => .dbSize
  | .time => .time
  | .clientGetName => .clientGetName
  | .clientSetName _ => .clientSetName
  | .clientId => .clientId
  | .clientList => .clientList
  | .clientKill => .clientKill
  | .get _ => .get
  | .set .. => .set
  | .setEx .. => .setEx
  | .getEx .. => .getEx
  | .delete _ => .delete
  | .existsKey _ => .existsKey
  | .ttl _ => .ttl
  | .expire .. => .expire
  | .mGet _ => .mGet
  | .mSet _ => .mSet
  | .hSet .. => .hSet
  | .hGet .. => .hGet
  | .hDel .. => .hDel
  | .hLen _ => .hLen
  | .hMGet .. => .hMGet
  | .lPush .. => .lPush
  | .rPush .. => .rPush
  | .lPop _ => .lPop
  | .rPop _ => .rPop
  | .lLen _ => .lLen
  | .lIndex .. => .lIndex
  | .lRange .. => .lRange
  | .sAdd .. => .sAdd
  | .sRem .. => .sRem
  | .sIsMember .. => .sIsMember
  | .sCard _ => .sCard
  | .sMembers _ => .sMembers
  | .zAdd .. => .zAdd
  | .zRem .. => .zRem
  | .zScore .. => .zScore
  | .zCard _ => .zCard
  | .zRange .. => .zRange
  | .respCommand _ => .respCommand
  | .redisCommand kind _ => kind
  | .nativeRedisCommand .. => .nativeRedisCommand

/-- Commands that are sent with the compact argument list. -/
def FastCommand.takesRedisArgs : FastCommand → Bool
  | .redisCommand .. | .nativeRedisCommand .. => true
  | _ => false

namespace FastCodec

variable (request : FastRequest)

def requestFlags : UInt8 :=
  (if request.keyHash.isSome then fastFlagKeyHash else 0) |||
  (if request.routeShard.isSome then fastFlagRouteShard else 0) |||
  (if request.keyTag.isSome then fastFlagKeyTag else 0) |||
  (if request.command.takesRedisArgs then fastFlagRedisCommandArgs else 0)

def encodeRequestBody : Bytes :=
  request.keyHash.elim [] (fun keyHash => leBytes 8 keyHash.toNat) ++
  request.routeShard.elim [] (fun routeShard => leBytes 4 routeShard.toNat) ++
  request.keyTag.elim [] (fun keyTag => leBytes 8 keyTag.toNat) ++
  encodeCommand request.command

def encodeRequest : Bytes :=
  let body := encodeRequestBody request
  fastHeader fastRequestMagic fastProtocolVersion request.command.kind.opcode.toUInt8
    (requestFlags request) body.length ++ body

def encodeArrayItem : Option Bytes → Bytes
  | some value => leBytes 4 value.length ++ value
  | none => leBytes 4 (2 ^ 32 - 1)

def encodeArrayBody (values : List (Option Bytes)) : Bytes :=
  leBytes 4 values.length ++ values.flatMap encodeArrayItem

def responseStatus : FastResponse → UInt8
  | .ok => 0
  | .null => 1
  | .error _ => 2
  | .integer _ => 3
  | .value _ => 4
  | .boolean _ => 5
  | .array _ => 6
  | .float _ => 7
  | .nativeFrame _ => 8

def encodeResponseBody : FastResponse → Bytes
  | .ok | .null => []
  | .error message => message
  | .integer value => leBytes 8 value.toUInt64.toNat
  | .value bytes => bytes
  | .boolean value => [if value then 1 else 0]
  | .array values => encodeArrayBody values
  | .float bits => leBytes 8 bits.toNat
  | .nativeFrame bytes => bytes

def encodeResponse (response : FastResponse) : Bytes :=
  let body := encodeResponseBody response
  fastHeader fastResponseMagic fastProtocolVersion (responseStatus response) 0 body.length ++ body

def takeArrayItem : ByteReader (Option Bytes) := do
  let len ← takeLen "fast array item"
  if len = 2 ^ 32 - 1 then return none
  else some <$> takeExactSlice len "fast array item"

def takeArray : ByteReader (List (Option Bytes)) := do
  let values ← takeList (takeLen "fast array count") 4 takeArrayItem "fast array"
  ensureFinished "fast array response"
  return values

def decodeArrayBody (body : Bytes) : Except String (List (Option Bytes)) :=
  (takeArray body).map Prod.fst

/-- A response made of one word. -/
def decodeWord (make : UInt64 → FastResponse) (body : Bytes) (what : String) :
    Except String FastResponse :=
  if body.length ≠ 8 then .error s!"fast {what} response is truncated"
  else .ok (make (UInt64.ofNat (leValue body)))

def decodeResponseBody (status : UInt8) (body : Bytes) : Except String FastResponse :=
  match status.toNat with
  | 0 => .ok .ok
  | 1 => .ok .null
  | 2 => .ok (.error body)
  | 3 => decodeWord (fun word => .integer word.toInt64) body "integer"
  | 4 => .ok (.value body)
  | 5 =>
    if body.length ≠ 1 then .error "fast boolean response is truncated"
    else .ok (.boolean (body.getD 0 0 ≠ 0))
  | 6 => .array <$> decodeArrayBody body
  | 7 => decodeWord .float body "float"
  | 8 => .ok (.nativeFrame body)
  | other => .error s!"unsupported fast response status: {other}"

/-- The response at the front of the buffer and the length of its frame. -/
def decodeResponse (buffer : Bytes) : Except String (Option (FastResponse × ℕ)) :=
  if buffer = [] then .ok none
  else if buffer.getD 0 0 ≠ fastResponseMagic then .error "invalid fast response magic byte"
  else if buffer.length < responseHeaderLen then .ok none
  else
    let version := buffer.getD 1 0
    if version ≠ fastProtocolVersion then
      .error s!"unsupported fast response protocol version: {version}"
    else
      let bodyLen := leValue (byteSlice buffer 4 4)
      let frameLen := responseHeaderLen + bodyLen
      if buffer.length < frameLen then .ok none
      else do
        let response ← decodeResponseBody (buffer.getD 2 0)
          (byteSlice buffer responseHeaderLen bodyLen)
        return some (response, frameLen)

end FastCodec
end ShardKv
