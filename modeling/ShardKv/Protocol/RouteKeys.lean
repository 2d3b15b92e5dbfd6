import ShardKv.Protocol.FastCommandKind
import ShardKv.Protocol.Resp

/-!
# The keys a command is routed by

Before a command runs, the keys that decide its shards are taken from its arguments. Some
commands say themselves how many keys they have, in an argument that nothing has checked
yet. An extraction returns the slots it asked for next to the keys; an addition that leaves
the machine word, and a request that no allocator can serve, end it.
-/
namespace ShardKv

open List

inductive FastRedisRouteKeys where
  | none
  | allShards
  | keys (keys : List Bytes)
  deriving DecidableEq

inductive RoutePanic where
  | additionOverflow
  | capacityOverflow
  deriving DecidableEq

structure RouteExtraction where
  routeKeys : FastRedisRouteKeys
  reserved : ℕ
  deriving DecidableEq

namespace RouteKeys

variable (args : List Bytes)

def maxUsize : ℕ := 2 ^ 64 - 1

/-- The bytes of a slice of bytes: its address and its length. -/
def sliceSize : ℕ := 16

/-- The largest allocation, in bytes. -/
def maxAllocation : ℕ := 2 ^ 63 - 1

def eqIgnoreAsciiCase (text : Bytes) (name : String) : Bool :=
  text.map toAsciiLower == (asciiText name).map toAsciiLower

/-- What `str::parse::<usize>` makes of a text. -/
def parseAsciiUsize (raw : Bytes) : Option ℕ :=
  let digits := if raw.head? = some 43 then raw.tail else raw
  let value := digits.foldl (fun value byte => value * 10 + (byte.toNat - 48)) 0
  if digits.isEmpty || !digits.all isDigit || maxUsize < value then .none else some value

def checkedAdd (a b : ℕ) : Option ℕ := if a + b ≤ maxUsize then some (a + b) else .none

/-- A vector that is collected asks for the keys it gets. -/
def collected (keys : List Bytes) : RouteExtraction := ⟨.keys keys, keys.length⟩

def allRouteKeys : RouteExtraction := collected args

def firstNRouteKeys (count : ℕ) : RouteExtraction := collected (args.take count)

/-- Every second one of the arguments. -/
def everySecond : List Bytes → List Bytes
  | [] => []
  | [key] => [key]
  | key :: _ :: rest => key :: everySecond rest

def firstAndTailRouteKeys (firstCount tailStart : ℕ) : RouteExtraction :=
  collected (args.take firstCount ++ args.drop tailStart)

def routeKeysBeforeLastArg : RouteExtraction := collected (args.take (args.length - 1))

/-- The keys behind their number. For opcodes a number of zero names no span; the copy of this
function that transactions use accepts it. -/
def countedKeySpan (numkeysIndex : ℕ) (zero : Bool) : Option (List Bytes) := do
  let numkeys ← args[numkeysIndex]?.bind parseAsciiUsize
  let keyStart ← checkedAdd numkeysIndex 1
  let keyEnd ← checkedAdd keyStart numkeys
  if (numkeys = 0 && !zero) || args.length < keyEnd then .none
  else some ((args.drop keyStart).take numkeys)

def countedRouteKeys (numkeysIndex : ℕ) (zero : Bool) : RouteExtraction :=
  match countedKeySpan args numkeysIndex zero with
  | some keys => collected keys
  | .none => ⟨.allShards, 0⟩

/-- The vector is reserved by the number the client sent. -/
def zaggregateStoreRouteKeys : Except RoutePanic RouteExtraction :=
  match args with
  | destination :: count :: rest =>
    match parseAsciiUsize count with
    | .none => .ok ⟨.allShards, 0⟩
    | some numkeys =>
      if maxUsize < numkeys + 1 then .error .additionOverflow
      else if maxAllocation < (numkeys + 1) * sliceSize then .error .capacityOverflow
      else .ok ⟨.keys (destination :: rest.take numkeys), numkeys + 1⟩
  | args => .ok (firstNRouteKeys args 1)

end RouteKeys

open RouteKeys

def FastCommandKind.redisRouteKeys (kind : FastCommandKind) (args : List Bytes) :
    Except RoutePanic RouteExtraction :=
  match kind with
  | .auth | .hello | .select | .quit | .ping | .echo | .info | .command | .commandDocs | .config
  | .configGet | .dbSize | .time | .client | .clientGetName | .clientSetName | .clientId
  | .clientList | .clientKill | .multi | .exec | .discard | .unwatch => .ok ⟨.none, 0⟩
  | .keys | .randomKey | .scan | .flushAll | .flushDb => .ok ⟨.allShards, 0⟩
  | .delete | .unlink | .touch | .mGet | .sUnion | .sInter | .sDiff | .watch =>
    .ok (allRouteKeys args)
  | .mSet | .mSetNx => .ok (collected (everySecond args))
  | .copy | .rename | .renameNx | .rPopLPush | .bRPopLPush | .lMove | .bLMove | .sMove =>
    .ok (firstNRouteKeys args 2)
  | .object | .memory => .ok (firstNRouteKeys args.tail 1)
  | .bitOp => .ok (allRouteKeys args.tail)
  | .lMPop | .zMPop | .zDiff | .zInter | .zUnion | .zInterCard =>
    .ok (countedRouteKeys args 0 false)
  | .bLMPop | .bZMPop => .ok (countedRouteKeys args 1 false)
  | .bLPop | .bRPop | .bZPopMin | .bZPopMax => .ok (routeKeysBeforeLastArg args)
  | .sUnionStore | .sInterStore | .sDiffStore => .ok (firstAndTailRouteKeys args 0 1)
  | .zUnionStore | .zInterStore | .zDiffStore => zaggregateStoreRouteKeys args
  | .zRangeStore => .ok (firstNRouteKeys args 2)
  | _ => .ok (firstNRouteKeys args 1)

/-- Each command stands in the table under its own name. -/
def FastCommandKind.fromRedisName (name : Bytes) : Option FastCommandKind :=
  ((range 181).map ofNat).find? fun kind => kind.redisName.any (eqIgnoreAsciiCase name)

namespace RouteKeys

inductive SupplementalCommandKeySpec where
  | none
  | allShards
  | allArgs
  | at (index : ℕ)
  | firstN (count : ℕ)
  | counted (numkeysIndex : ℕ)
  | streamRead
  | sort

def streamReadRouteKeys (args : List Bytes) : RouteExtraction :=
  match args.findIdx? (eqIgnoreAsciiCase · "STREAMS") with
  | .none => ⟨.allShards, 0⟩
  | some streamsIndex =>
    let streamArgs := args.drop (streamsIndex + 1)
    if streamArgs.length < 2 || streamArgs.length % 2 ≠ 0 then ⟨.allShards, 0⟩
    else collected (streamArgs.take (streamArgs.length / 2))

/-- The argument behind the first `STORE`. -/
def storeDestination : List Bytes → List Bytes
  | arg :: next :: rest =>
    if eqIgnoreAsciiCase arg "STORE" then [next] else storeDestination (next :: rest)
  | _ => []

def sortRouteKeys : List Bytes → RouteExtraction
  | [] => ⟨.none, 0⟩
  | source :: rest => collected (source :: storeDestination rest)

def SupplementalCommandKeySpec.routeKeys (args : List Bytes) :
    SupplementalCommandKeySpec → RouteExtraction
  | .none => ⟨.none, 0⟩
  | .allShards => ⟨.allShards, 0⟩
  | .allArgs => allRouteKeys args
  | .at index => match args[index]? with
    | some key => collected [key]
    | .none => ⟨.none, 0⟩
  | .firstN count => firstNRouteKeys args count
  | .counted numkeysIndex => countedRouteKeys args numkeysIndex true
  | .streamRead => streamReadRouteKeys args
  | .sort => sortRouteKeys args

def supplementalCommandKeySpecs : List (List String × SupplementalCommandKeySpec) := [
  (["ASKING", "BGREWRITEAOF", "BGSAVE", "CLUSTER", "DEBUG", "FUNCTION", "HOST:", "LASTSAVE",
    "LATENCY", "LOLWUT", "MODULE", "MONITOR", "POST", "PSUBSCRIBE", "PSYNC", "PUBSUB",
    "PUNSUBSCRIBE", "READONLY", "READWRITE", "REPLCONF", "REPLICAOF", "ROLE", "SAVE", "SCRIPT",
    "SHUTDOWN", "SLAVEOF", "SLOWLOG", "SPUBLISH", "SUBSCRIBE", "SSUBSCRIBE", "SUNSUBSCRIBE",
    "SYNC", "UNSUBSCRIBE", "WAIT"], .none),
  (["EVAL", "EVALSHA", "EVAL_RO", "EVALSHA_RO", "FCALL", "FCALL_RO"], .counted 1),
  (["GEOSEARCHSTORE"], .firstN 2),
  (["MIGRATE", "SWAPDB"], .allShards),
  (["PFCOUNT", "PFMERGE"], .allArgs),
  (["PFDEBUG", "XGROUP", "XINFO"], .at 1),
  (["PFSELFTEST", "PUBLISH"], .none),
  (["XREAD", "XREADGROUP"], .streamRead),
  (["SORT", "SORT_RO"], .sort)]

def supplementalCommandKeySpec (command : Bytes) : Option SupplementalCommandKeySpec :=
  (supplementalCommandKeySpecs.find? fun entry =>
    entry.1.any (eqIgnoreAsciiCase command)).map Prod.snd

def commandRouteKeys (command : Bytes) (args : List Bytes) : Except RoutePanic RouteExtraction :=
  if eqIgnoreAsciiCase command "SCNP.SCAN" then .ok ⟨.allShards, 0⟩
  else match FastCommandKind.fromRedisName command with
    | some kind => kind.redisRouteKeys args
    | .none => match supplementalCommandKeySpec command with
      | some spec => .ok (spec.routeKeys args)
      | .none => .ok (firstNRouteKeys args 1)

/-- The extraction returns, and asked for no more slots than there are arguments. -/
def Bounded (args : List Bytes) (extracted : Except RoutePanic RouteExtraction) : Prop :=
  ∃ extraction, extracted = .ok extraction ∧ extraction.reserved ≤ args.length

/-- The client counts more keys than it sends arguments. -/
def OverCounts (args : List Bytes) : Prop :=
  ∃ count numkeys, args[1]? = some count ∧ parseAsciiUsize count = some numkeys ∧
    args.length ≤ numkeys

variable {args : List Bytes}

theorem bounded_collected {keys : List Bytes} (h : keys.length ≤ args.length) :
    Bounded args (.ok (collected keys)) :=
  ⟨_, rfl, h⟩

theorem bounded_empty (routeKeys : FastRedisRouteKeys) : Bounded args (.ok ⟨routeKeys, 0⟩) :=
  ⟨_, rfl, Nat.zero_le _⟩

theorem bounded_firstN (count : ℕ) : Bounded args (.ok (firstNRouteKeys args count)) :=
  bounded_collected (length_take_le' count args)

theorem length_everySecond_le (args : List Bytes) : (everySecond args).length ≤ args.length := by
  fun_induction everySecond args with
  | case1 => exact Nat.le_refl 0
  | case2 => exact Nat.le_refl 1
  | case3 =>
    simp only [length_cons]
    omega

theorem length_storeDestination_le (args : List Bytes) :
    (storeDestination args).length ≤ args.length := by
  fun_induction storeDestination args with
  | case1 => simp
  | case2 _ _ _ _ ih => exact ih.trans (Nat.le_succ _)
  | case3 => exact Nat.zero_le _

theorem bounded_counted (numkeysIndex : ℕ) (zero : Bool) :
    Bounded args (.ok (countedRouteKeys args numkeysIndex zero)) := by
  unfold countedRouteKeys
  cases hspan : countedKeySpan args numkeysIndex zero with
  | none => exact bounded_empty _
  | some =>
    simp only [countedKeySpan, Option.bind_eq_bind, Option.bind_eq_some_iff] at hspan
    obtain ⟨numkeys, -, keyStart, -, keyEnd, -, hkeys⟩ := hspan
    split_ifs at hkeys
    cases hkeys
    refine bounded_collected ?_
    rw [length_take, length_drop]
    omega

theorem bounded_streamRead : Bounded args (.ok (streamReadRouteKeys args)) := by
  unfold streamReadRouteKeys
  split
  next => exact bounded_empty _
  next streamsIndex hfind =>
    dsimp only
    split_ifs
    · exact bounded_empty _
    · refine bounded_collected ?_
      simp only [length_take, length_drop]
      omega

theorem bounded_sort : Bounded args (.ok (sortRouteKeys args)) := by
  cases args with
  | nil => exact bounded_empty _
  | cons => exact bounded_collected (Nat.succ_le_succ (length_storeDestination_le _))

theorem bounded_supplemental (spec : SupplementalCommandKeySpec) :
    Bounded args (.ok (spec.routeKeys args)) := by
  cases spec with
  | none | allShards => exact bounded_empty _
  | allArgs => exact bounded_collected (Nat.le_refl _)
  | «at» index =>
    change Bounded args (.ok (match args[index]? with
      | some key => collected [key]
      | none => ⟨.none, 0⟩))
    cases hkey : args[index]? with
    | none => exact bounded_empty _
    | some =>
      have hindex := (List.getElem?_eq_some_iff.mp hkey).1
      exact bounded_collected (Nat.one_le_of_lt hindex)
  | firstN => exact bounded_firstN _
  | counted => exact bounded_counted _ true
  | streamRead => exact bounded_streamRead
  | sort => exact bounded_sort

/-- A slice of arguments of the machine. -/
structure ArgSlice where
  items : List Bytes
  fits : items.length * sliceSize ≤ maxAllocation

def zaggregateStores : List FastCommandKind := [.zUnionStore, .zInterStore, .zDiffStore]

theorem zaggregateStore_bounded_iff (args : ArgSlice) :
    Bounded args.items (zaggregateStoreRouteKeys args.items) ↔ ¬OverCounts args.items := by
  obtain ⟨args, hfits⟩ := args
  dsimp only
  unfold zaggregateStoreRouteKeys
  split
  next destination count rest =>
    cases hcount : parseAsciiUsize count with
    | none => simp [OverCounts, hcount, bounded_empty]
    | some numkeys =>
      have hover : OverCounts (destination :: count :: rest) ↔ rest.length + 1 < numkeys := by
        simp [OverCounts, hcount]
      rw [hover]
      simp only [length_cons, sliceSize, maxAllocation] at hfits
      constructor
      · rintro ⟨extraction, hok, hreserved⟩
        dsimp only at hok
        split_ifs at hok
        cases hok
        simp only [length_cons] at hreserved
        omega
      · intro hcounted
        dsimp only
        rw [if_neg (by simp only [maxUsize]; omega),
          if_neg (by simp only [maxAllocation, sliceSize]; omega)]
        refine ⟨_, rfl, ?_⟩
        simp only [length_cons]
        omega
  next hshort =>
    refine iff_of_true (bounded_firstN 1) ?_
    rintro ⟨count, numkeys, hcount, -, -⟩
    match args, hcount with
    | destination :: count :: rest, _ => exact hshort destination count rest rfl

theorem redisRouteKeys_bounded {kind : FastCommandKind} (hkind : kind ∉ zaggregateStores) :
    Bounded args (kind.redisRouteKeys args) := by
  unfold FastCommandKind.redisRouteKeys
  split
  all_goals first
    | exact bounded_empty _
    | exact bounded_firstN _
    | exact bounded_counted _ _
    | exact absurd (by decide) hkind
    | exact bounded_collected (Nat.le_refl _)
    | exact bounded_collected (length_everySecond_le args)
    | exact bounded_collected (by simp)

theorem redisRouteKeys_bounded_iff (kind : FastCommandKind) (args : ArgSlice) :
    Bounded args.items (kind.redisRouteKeys args.items) ↔
      ¬(kind ∈ zaggregateStores ∧ OverCounts args.items) := by
  by_cases hkind : kind ∈ zaggregateStores
  · have hstore : kind.redisRouteKeys args.items = zaggregateStoreRouteKeys args.items := by
      simp only [zaggregateStores, mem_cons, not_mem_nil, or_false] at hkind
      obtain rfl | rfl | rfl := hkind <;> rfl
    rw [hstore, zaggregateStore_bounded_iff]
    simp [hkind]
  · exact iff_of_true (redisRouteKeys_bounded hkind) (by simp [hkind])

/-- Extraction is bounded by the arguments, but for the stores that count their sources and are
sent a count beyond their arguments. -/
theorem routeKeys_bounded_iff (kind : FastCommandKind) (command : Bytes) (args : ArgSlice) :
    (Bounded args.items (kind.redisRouteKeys args.items) ↔
      ¬(kind ∈ zaggregateStores ∧ OverCounts args.items)) ∧
    (Bounded args.items (commandRouteKeys command args.items) ↔
      ¬(eqIgnoreAsciiCase command "SCNP.SCAN" = false ∧
        (∃ store ∈ zaggregateStores, FastCommandKind.fromRedisName command = some store) ∧
        OverCounts args.items)) := by
  refine ⟨redisRouteKeys_bounded_iff kind args, ?_⟩
  unfold commandRouteKeys
  cases hscan : eqIgnoreAsciiCase command "SCNP.SCAN" with
  | true => simp [bounded_empty]
  | false =>
    cases hkind : FastCommandKind.fromRedisName command with
    | some kind => simpa using redisRouteKeys_bounded_iff kind args
    | none =>
      refine iff_of_true ?_ (by simp)
      cases supplementalCommandKeySpec command with
      | some => exact bounded_supplemental _
      | none => exact bounded_firstN 1

/-- A union of one key that claims to have half the address space of them. -/
theorem hugeCount_panics : commandRouteKeys (asciiText "zunionstore")
        [asciiText "out", asciiText "9223372036854775807", asciiText "a"] =
      .error .capacityOverflow := by
  decide +kernel

end RouteKeys
end ShardKv
