import ShardKv.Foundations.Bytes

/-!
# Opcodes of the native protocol

Every command of the native protocol has an opcode of one byte. The opcodes are
listed twice, once with the commands and once in the decoder. Most of them also
name a Redis command.
-/
namespace ShardKv

inductive FastCommandKind where
  | get | set | setEx | getEx | delete | existsKey | ttl | expire | ping | mGet | mSet | append
  | bitCount | bitField | bitOp | bitPos | decr | decrBy | getBit | getDel | getRange | getSet
  | incr | incrBy | incrByFloat | mSetNx | pSetEx | setBit | setNx | setRange | strLen | auth
  | hello | select | quit | echo | info | command | commandDocs | configGet | dbSize | time
  | clientGetName | clientSetName | clientId | clientList | clientKill | config | client
  | flushAll | flushDb | hSet | hGet | hDel | hLen | hMGet | hExists | hGetAll | hIncrBy
  | hIncrByFloat | hKeys | hMSet | hRandField | hScan | hSetNx | hStrLen | hVals | lPush | rPush
  | lPop | rPop | lLen | lIndex | lRange | bLMove | bLMPop | bLPop | bRPop | lInsert | lMove
  | lMPop | lPushX | lRem | lSet | lTrim | rPopLPush | rPushX | bRPopLPush | sAdd | sRem
  | sIsMember | sCard | sMembers | sDiff | sDiffStore | sInter | sInterStore | sMIsMember | sMove
  | sPop | sRandMember | sScan | sUnion | sUnionStore | zAdd | zRem | zScore | zCard | zRange
  | copy | dump | expireAt | expireTime | keys | memory | object | persist | pExpire | pExpireAt
  | pExpireTime | pTtl | randomKey | rename | renameNx | restore | scan | touch | type | unlink
  | multi | exec | discard | watch | unwatch | restoreAsking | substr | respCommand | bZMPop
  | bZPopMax | bZPopMin | zCount | zDiff | zDiffStore | zIncrBy | zInter | zInterCard
  | zInterStore | zLexCount | zMPop | zMScore | zPopMax | zPopMin | zRandMember | zRangeByLex
  | zRangeByScore | zRangeStore | zRank | zRemRangeByLex | zRemRangeByRank | zRemRangeByScore
  | zRevRange | zRevRangeByLex | zRevRangeByScore | zRevRank | zScan | zUnion | zUnionStore
  | vAdd | vCard | vDim | vEmb | vGetAttr | vInfo | vIsMember | vLinks | vRandMember | vRange
  | vRem | vSetAttr | vSim | nativeRedisCommand
  deriving DecidableEq, Repr

namespace FastCommandKind

/-- The discriminant of a command. -/
def opcode : FastCommandKind → ℕ
  | .get => 1 | .set => 2 | .setEx => 3 | .getEx => 4 | .delete => 5 | .existsKey => 6
  | .ttl => 7 | .expire => 8 | .ping => 9 | .mGet => 10 | .mSet => 11 | .append => 80
  | .bitCount => 81 | .bitField => 82 | .bitOp => 83 | .bitPos => 84 | .decr => 85
  | .decrBy => 86 | .getBit => 87 | .getDel => 88 | .getRange => 89 | .getSet => 90 | .incr => 91
  | .incrBy => 92 | .incrByFloat => 93 | .mSetNx => 94 | .pSetEx => 95 | .setBit => 96
  | .setNx => 97 | .setRange => 98 | .strLen => 99 | .auth => 60 | .hello => 61 | .select => 62
  | .quit => 63 | .echo => 64 | .info => 65 | .command => 66 | .commandDocs => 67
  | .configGet => 68 | .dbSize => 69 | .time => 70 | .clientGetName => 71 | .clientSetName => 72
  | .clientId => 73 | .clientList => 74 | .clientKill => 75 | .config => 76 | .client => 77
  | .flushAll => 78 | .flushDb => 79 | .hSet => 20 | .hGet => 21 | .hDel => 22 | .hLen => 23
  | .hMGet => 24 | .hExists => 140 | .hGetAll => 141 | .hIncrBy => 142 | .hIncrByFloat => 143
  | .hKeys => 144 | .hMSet => 145 | .hRandField => 146 | .hScan => 147 | .hSetNx => 148
  | .hStrLen => 149 | .hVals => 150 | .lPush => 30 | .rPush => 31 | .lPop => 32 | .rPop => 33
  | .lLen => 34 | .lIndex => 35 | .lRange => 36 | .bLMove => 160 | .bLMPop => 161 | .bLPop => 162
  | .bRPop => 163 | .lInsert => 164 | .lMove => 165 | .lMPop => 166 | .lPushX => 167
  | .lRem => 168 | .lSet => 169 | .lTrim => 170 | .rPopLPush => 171 | .rPushX => 172
  | .bRPopLPush => 173 | .sAdd => 40 | .sRem => 41 | .sIsMember => 42 | .sCard => 43
  | .sMembers => 44 | .sDiff => 180 | .sDiffStore => 181 | .sInter => 182 | .sInterStore => 183
  | .sMIsMember => 184 | .sMove => 185 | .sPop => 186 | .sRandMember => 187 | .sScan => 188
  | .sUnion => 189 | .sUnionStore => 190 | .zAdd => 50 | .zRem => 51 | .zScore => 52
  | .zCard => 53 | .zRange => 54 | .copy => 100 | .dump => 101 | .expireAt => 102
  | .expireTime => 103 | .keys => 104 | .memory => 105 | .object => 106 | .persist => 107
  | .pExpire => 108 | .pExpireAt => 109 | .pExpireTime => 110 | .pTtl => 111 | .randomKey => 112
  | .rename => 113 | .renameNx => 114 | .restore => 115 | .scan => 116 | .touch => 117
  | .type => 118 | .unlink => 119 | .multi => 120 | .exec => 121 | .discard => 122
  | .watch => 123 | .unwatch => 124 | .restoreAsking => 125 | .substr => 126
  | .respCommand => 200 | .bZMPop => 201 | .bZPopMax => 202 | .bZPopMin => 203 | .zCount => 204
  | .zDiff => 205 | .zDiffStore => 206 | .zIncrBy => 207 | .zInter => 208 | .zInterCard => 209
  | .zInterStore => 210 | .zLexCount => 211 | .zMPop => 212 | .zMScore => 213 | .zPopMax => 214
  | .zPopMin => 215 | .zRandMember => 216 | .zRangeByLex => 217 | .zRangeByScore => 218
  | .zRangeStore => 219 | .zRank => 220 | .zRemRangeByLex => 221 | .zRemRangeByRank => 222
  | .zRemRangeByScore => 223 | .zRevRange => 224 | .zRevRangeByLex => 225
  | .zRevRangeByScore => 226 | .zRevRank => 227 | .zScan => 228 | .zUnion => 229
  | .zUnionStore => 230 | .vAdd => 231 | .vCard => 232 | .vDim => 233 | .vEmb => 234
  | .vGetAttr => 235 | .vInfo => 236 | .vIsMember => 237 | .vLinks => 238 | .vRandMember => 239
  | .vRange => 240 | .vRem => 241 | .vSetAttr => 242 | .vSim => 243 | .nativeRedisCommand => 244

/-- The arms of `from_opcode`. -/
def opcodeArms : List (ℕ × FastCommandKind) := [
  (1, .get), (2, .set), (3, .setEx), (4, .getEx), (5, .delete), (6, .existsKey), (7, .ttl),
  (8, .expire), (9, .ping), (10, .mGet), (11, .mSet), (20, .hSet), (21, .hGet), (22, .hDel),
  (23, .hLen), (24, .hMGet), (30, .lPush), (31, .rPush), (32, .lPop), (33, .rPop), (34, .lLen),
  (35, .lIndex), (36, .lRange), (40, .sAdd), (41, .sRem), (42, .sIsMember), (43, .sCard),
  (44, .sMembers), (50, .zAdd), (51, .zRem), (52, .zScore), (53, .zCard), (54, .zRange),
  (60, .auth), (61, .hello), (62, .select), (63, .quit), (64, .echo), (65, .info),
  (66, .command), (67, .commandDocs), (68, .configGet), (69, .dbSize), (70, .time),
  (71, .clientGetName), (72, .clientSetName), (73, .clientId), (74, .clientList),
  (75, .clientKill), (76, .config), (77, .client), (78, .flushAll), (79, .flushDb),
  (80, .append), (81, .bitCount), (82, .bitField), (83, .bitOp), (84, .bitPos), (85, .decr),
  (86, .decrBy), (87, .getBit), (88, .getDel), (89, .getRange), (90, .getSet), (91, .incr),
  (92, .incrBy), (93, .incrByFloat), (94, .mSetNx), (95, .pSetEx), (96, .setBit), (97, .setNx),
  (98, .setRange), (99, .strLen), (100, .copy), (101, .dump), (102, .expireAt),
  (103, .expireTime), (104, .keys), (105, .memory), (106, .object), (107, .persist),
  (108, .pExpire), (109, .pExpireAt), (110, .pExpireTime), (111, .pTtl), (112, .randomKey),
  (113, .rename), (114, .renameNx), (115, .restore), (116, .scan), (117, .touch), (118, .type),
  (119, .unlink), (120, .multi), (121, .exec), (122, .discard), (123, .watch), (124, .unwatch),
  (125, .restoreAsking), (126, .substr), (140, .hExists), (141, .hGetAll), (142, .hIncrBy),
  (143, .hIncrByFloat), (144, .hKeys), (145, .hMSet), (146, .hRandField), (147, .hScan),
  (148, .hSetNx), (149, .hStrLen), (150, .hVals), (160, .bLMove), (161, .bLMPop), (162, .bLPop),
  (163, .bRPop), (164, .lInsert), (165, .lMove), (166, .lMPop), (167, .lPushX), (168, .lRem),
  (169, .lSet), (170, .lTrim), (171, .rPopLPush), (172, .rPushX), (173, .bRPopLPush),
  (180, .sDiff), (181, .sDiffStore), (182, .sInter), (183, .sInterStore), (184, .sMIsMember),
  (185, .sMove), (186, .sPop), (187, .sRandMember), (188, .sScan), (189, .sUnion),
  (190, .sUnionStore), (200, .respCommand), (201, .bZMPop), (202, .bZPopMax), (203, .bZPopMin),
  (204, .zCount), (205, .zDiff), (206, .zDiffStore), (207, .zIncrBy), (208, .zInter),
  (209, .zInterCard), (210, .zInterStore), (211, .zLexCount), (212, .zMPop), (213, .zMScore),
  (214, .zPopMax), (215, .zPopMin), (216, .zRandMember), (217, .zRangeByLex),
  (218, .zRangeByScore), (219, .zRangeStore), (220, .zRank), (221, .zRemRangeByLex),
  (222, .zRemRangeByRank), (223, .zRemRangeByScore), (224, .zRevRange), (225, .zRevRangeByLex),
  (226, .zRevRangeByScore), (227, .zRevRank), (228, .zScan), (229, .zUnion), (230, .zUnionStore),
  (231, .vAdd), (232, .vCard), (233, .vDim), (234, .vEmb), (235, .vGetAttr), (236, .vInfo),
  (237, .vIsMember), (238, .vLinks), (239, .vRandMember), (240, .vRange), (241, .vRem),
  (242, .vSetAttr), (243, .vSim), (244, .nativeRedisCommand)]

def fromOpcode (value : ℕ) : Option FastCommandKind := opcodeArms.lookup value

def redisName : FastCommandKind → Option String
  | .append => some "APPEND" | .auth => some "AUTH" | .bitCount => some "BITCOUNT"
  | .bitField => some "BITFIELD" | .bitOp => some "BITOP" | .bitPos => some "BITPOS"
  | .bLMove => some "BLMOVE" | .bLMPop => some "BLMPOP" | .bLPop => some "BLPOP"
  | .bRPop => some "BRPOP" | .bRPopLPush => some "BRPOPLPUSH" | .bZMPop => some "BZMPOP"
  | .bZPopMax => some "BZPOPMAX" | .bZPopMin => some "BZPOPMIN" | .client => some "CLIENT"
  | .command => some "COMMAND" | .config => some "CONFIG" | .copy => some "COPY"
  | .dbSize => some "DBSIZE" | .decr => some "DECR" | .decrBy => some "DECRBY"
  | .delete => some "DEL" | .discard => some "DISCARD" | .dump => some "DUMP"
  | .echo => some "ECHO" | .exec => some "EXEC" | .existsKey => some "EXISTS"
  | .expire => some "EXPIRE" | .expireAt => some "EXPIREAT" | .expireTime => some "EXPIRETIME"
  | .flushAll => some "FLUSHALL" | .flushDb => some "FLUSHDB" | .get => some "GET"
  | .getBit => some "GETBIT" | .getDel => some "GETDEL" | .getEx => some "GETEX"
  | .getRange => some "GETRANGE" | .getSet => some "GETSET" | .hello => some "HELLO"
  | .hDel => some "HDEL" | .hExists => some "HEXISTS" | .hGet => some "HGET"
  | .hGetAll => some "HGETALL" | .hIncrBy => some "HINCRBY"
  | .hIncrByFloat => some "HINCRBYFLOAT" | .hKeys => some "HKEYS" | .hLen => some "HLEN"
  | .hMGet => some "HMGET" | .hMSet => some "HMSET" | .hRandField => some "HRANDFIELD"
  | .hScan => some "HSCAN" | .hSet => some "HSET" | .hSetNx => some "HSETNX"
  | .hStrLen => some "HSTRLEN" | .hVals => some "HVALS" | .info => some "INFO"
  | .incr => some "INCR" | .incrBy => some "INCRBY" | .incrByFloat => some "INCRBYFLOAT"
  | .keys => some "KEYS" | .lIndex => some "LINDEX" | .lInsert => some "LINSERT"
  | .lLen => some "LLEN" | .lMove => some "LMOVE" | .lMPop => some "LMPOP" | .lPop => some "LPOP"
  | .lPush => some "LPUSH" | .lPushX => some "LPUSHX" | .lRange => some "LRANGE"
  | .lRem => some "LREM" | .lSet => some "LSET" | .lTrim => some "LTRIM"
  | .memory => some "MEMORY" | .mGet => some "MGET" | .mSet => some "MSET"
  | .mSetNx => some "MSETNX" | .multi => some "MULTI" | .object => some "OBJECT"
  | .persist => some "PERSIST" | .pExpire => some "PEXPIRE" | .pExpireAt => some "PEXPIREAT"
  | .pExpireTime => some "PEXPIRETIME" | .ping => some "PING" | .pSetEx => some "PSETEX"
  | .pTtl => some "PTTL" | .quit => some "QUIT" | .randomKey => some "RANDOMKEY"
  | .rename => some "RENAME" | .renameNx => some "RENAMENX" | .restore => some "RESTORE"
  | .restoreAsking => some "RESTORE-ASKING" | .rPop => some "RPOP"
  | .rPopLPush => some "RPOPLPUSH" | .rPush => some "RPUSH" | .rPushX => some "RPUSHX"
  | .sAdd => some "SADD" | .scan => some "SCAN" | .sCard => some "SCARD" | .sDiff => some "SDIFF"
  | .sDiffStore => some "SDIFFSTORE" | .select => some "SELECT" | .set => some "SET"
  | .setBit => some "SETBIT" | .setEx => some "SETEX" | .setNx => some "SETNX"
  | .setRange => some "SETRANGE" | .sInter => some "SINTER" | .sInterStore => some "SINTERSTORE"
  | .sIsMember => some "SISMEMBER" | .sMembers => some "SMEMBERS"
  | .sMIsMember => some "SMISMEMBER" | .sMove => some "SMOVE" | .sPop => some "SPOP"
  | .sRandMember => some "SRANDMEMBER" | .sRem => some "SREM" | .sScan => some "SSCAN"
  | .strLen => some "STRLEN" | .substr => some "SUBSTR" | .sUnion => some "SUNION"
  | .sUnionStore => some "SUNIONSTORE" | .time => some "TIME" | .touch => some "TOUCH"
  | .ttl => some "TTL" | .type => some "TYPE" | .unlink => some "UNLINK"
  | .unwatch => some "UNWATCH" | .watch => some "WATCH" | .zAdd => some "ZADD"
  | .zCard => some "ZCARD" | .zCount => some "ZCOUNT" | .zDiff => some "ZDIFF"
  | .zDiffStore => some "ZDIFFSTORE" | .zIncrBy => some "ZINCRBY" | .zInter => some "ZINTER"
  | .zInterCard => some "ZINTERCARD" | .zInterStore => some "ZINTERSTORE"
  | .zLexCount => some "ZLEXCOUNT" | .zMPop => some "ZMPOP" | .zMScore => some "ZMSCORE"
  | .zPopMax => some "ZPOPMAX" | .zPopMin => some "ZPOPMIN" | .zRandMember => some "ZRANDMEMBER"
  | .zRange => some "ZRANGE" | .zRangeByLex => some "ZRANGEBYLEX"
  | .zRangeByScore => some "ZRANGEBYSCORE" | .zRangeStore => some "ZRANGESTORE"
  | .zRank => some "ZRANK" | .zRem => some "ZREM" | .zRemRangeByLex => some "ZREMRANGEBYLEX"
  | .zRemRangeByRank => some "ZREMRANGEBYRANK" | .zRemRangeByScore => some "ZREMRANGEBYSCORE"
  | .zRevRange => some "ZREVRANGE" | .zRevRangeByLex => some "ZREVRANGEBYLEX"
  | .zRevRangeByScore => some "ZREVRANGEBYSCORE" | .zRevRank => some "ZREVRANK"
  | .zScan => some "ZSCAN" | .zScore => some "ZSCORE" | .zUnion => some "ZUNION"
  | .zUnionStore => some "ZUNIONSTORE" | .vAdd => some "VADD" | .vCard => some "VCARD"
  | .vDim => some "VDIM" | .vEmb => some "VEMB" | .vGetAttr => some "VGETATTR"
  | .vInfo => some "VINFO" | .vIsMember => some "VISMEMBER" | .vLinks => some "VLINKS"
  | .vRandMember => some "VRANDMEMBER" | .vRange => some "VRANGE" | .vRem => some "VREM"
  | .vSetAttr => some "VSETATTR" | .vSim => some "VSIM"
  | .commandDocs | .configGet | .clientGetName | .clientSetName | .clientId | .clientList
  | .clientKill | .respCommand | .nativeRedisCommand => none

variable (kind : FastCommandKind)

/-- Commands whose body is always the compact argument list: they have no typed body. -/
def isGenericRedisOpcode : Bool := kind.redisName.isSome && match kind with
    | .get | .set | .setEx | .getEx | .delete | .existsKey | .ttl | .expire | .ping | .mGet
    | .mSet | .auth | .hello | .select | .quit | .echo | .info | .command | .dbSize | .time
    | .hSet | .hGet | .hDel | .hLen | .hMGet | .lPush | .rPush | .lPop | .rPop | .lLen | .lIndex
    | .lRange | .sAdd | .sRem | .sIsMember | .sCard | .sMembers | .zAdd | .zRem | .zScore
    | .zCard | .zRange => false
    | _ => true

theorem ctorIdx_lt : kind.ctorIdx < 181 := by
  cases kind <;> decide

/-- The two lists of opcodes agree, and opcodes fit a byte. -/
theorem fromOpcode_opcode :
    fromOpcode kind.opcode.toUInt8.toNat = some kind := by
  -- One evaluation over all commands by number instead of one for each command.
  have hall : ∀ i < 181, fromOpcode ((ofNat i).opcode % 2 ^ 8) = some (ofNat i) := by
    decide +kernel
  rw [← ofNat_ctorIdx kind, Nat.toUInt8_eq, UInt8.toNat_ofNat']
  exact hall _ kind.ctorIdx_lt

end FastCommandKind
end ShardKv
