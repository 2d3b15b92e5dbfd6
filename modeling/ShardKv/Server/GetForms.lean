import ShardKv.Server.ScnpGet
import ShardKv.Storage.OverflowCells

/-!
# All forms of GET

Every native GET comes down to one of a few ways to look at the shard of its key, or at
the first shard where a worker runs alone. Compared with the answer over RESP this leaves
exactly the cases in which a form does not see what the shard of the key holds.
-/
namespace ShardKv

open ScnpGetFrame EmbeddedStore Option

namespace FlatMap

variable {map : FlatMap} {outside : Outside} {key : Bytes} {nowMs : ℕ}
  {map' : FlatMap} {other : Bytes}

/-- In the table or with the overflow store. -/
def Stored (map : FlatMap) (key : Bytes) : Prop :=
  map.entries.lookup key ≠ none ∨ map.remoteEntries.lookup key ≠ none

/-- The object that a read of the key has to fetch. -/
def fetchPlan (map : FlatMap) (outside : Outside) (key : Bytes) (nowMs : ℕ) :
    Option ObjectValueRef :=
  (map.prepareObjectFaultHashed outside key nowMs false).1.map (·.object)

theorem getSharedByTtl_eq (h : Accounted map) :
    map.getSharedByTtl key nowMs = map.getSharedValueBytesHashed key nowMs := by
  unfold getSharedByTtl hasNoTtlEntries getRefHashedShared
  by_cases hzero : map.ttlEntries = 0
  · simp only [hzero, decide_true, if_true]
    exact (h.fastPathsAgree hzero key nowMs).shared
  · simp [hzero]

theorem withResponseValueBytesHashed_fst (h : Accounted map) (key : Bytes) (nowMs ownerMinLen : ℕ) :
    (map.withResponseValueBytesHashed key nowMs ownerMinLen).map (·.1) =
      map.getSharedValueBytesHashed key nowMs := by
  rw [← getSharedByTtl_eq h]
  unfold withResponseValueBytesHashed getSharedByTtl
  rw [map_map]
  exact map_id'

theorem prepareObjectFault_spec {plan : ObjectFaultPlan} {allowProtected : Bool}
    (h : map.prepareObjectFaultHashed outside key nowMs allowProtected = (some plan, map')) :
    ∃ remote, map'.remoteEntries.lookup plan.key = some remote ∧ remote.object = plan.object ∧
      remote.isExpired nowMs = false ∧
      (map.processObjectOverflowCompletions outside nowMs).remoteEntries.lookup key =
        some remote := by
  unfold prepareObjectFaultHashed at h
  dsimp only at h
  split at h
  · rename_i runtime remote _ hremote
    split_ifs at h with hfetch hprotected hexpired hstart
    · cases h
    · cases h
    · cases h
    · cases h
    · cases h
      exact ⟨remote, hremote, rfl, Bool.eq_false_of_not_eq_true hexpired, hremote⟩
  · cases h

variable (map outside key nowMs) in
/-- The resident value, or else the fetched one. -/
theorem tryGetValueBytes_eq : map.tryGetValueBytes outside key nowMs =
      match map.getSharedValueBytesHashed key nowMs, map.fetchPlan outside key nowMs with
      | some value, _ => .ok (some value)
      | none, none => .ok none
      | none, some object => (outside.getValue object).map some := by
  unfold tryGetValueBytes fetchPlan
  cases map.getSharedValueBytesHashed key nowMs with
  | some => rfl
  | none =>
    cases hplan : map.prepareObjectFaultHashed outside key nowMs false with
    | mk plan =>
      cases plan with
      | none => rfl
      | some =>
        obtain ⟨remote, hremote, hobject, hlive, -⟩ := prepareObjectFault_spec hplan
        exact finishObjectFault_value hremote hobject hlive outside _

theorem tryWithValueBytes_eq (h : Accounted map) :
    map.tryWithValueBytes outside key nowMs = map.tryGetValueBytes outside key nowMs := by
  unfold tryWithValueBytes
  rw [getSharedByTtl_eq h]
  cases hresident : map.getSharedValueBytesHashed key nowMs with
  | none => rfl
  | some => simp [tryGetValueBytes, hresident]

theorem tryWithResponseValueBytes_eq (h : Accounted map) (ownerMinLen : ℕ) :
    map.tryWithResponseValueBytes outside key nowMs ownerMinLen =
      map.tryGetValueBytes outside key nowMs := by
  have hfst := withResponseValueBytesHashed_fst h key nowMs ownerMinLen
  unfold tryWithResponseValueBytes
  cases hresponse : map.withResponseValueBytesHashed key nowMs ownerMinLen with
  | none => rfl
  | some =>
    rw [hresponse] at hfst
    rw [tryGetValueBytes, ← hfst]
    rfl

theorem completions_stored (h : Stored (map.processObjectOverflowCompletions outside nowMs) key) :
    Stored map key := by
  cases hruntime : map.objectOverflow with
  | none =>
    rw [processObjectOverflowCompletions, hruntime] at h
    exact h
  | some runtime =>
    have hcell : (map.processObjectOverflowCompletions outside nowMs).cell key = _ :=
      completions_cell hruntime key
    cases hmoves : (map.cell key).moves outside nowMs with
    | true =>
      -- the value that moves to the remote table was resident before
      obtain ⟨entry, _, _, hentry, -⟩ := FlatCell.completed_remote_of_moves hmoves runtime
      have hresident : map.entries.lookup key = some entry := hentry
      exact .inl (by simp [hresident])
    | false =>
      have hentry := (congrArg FlatCell.entry hcell).trans (FlatCell.completed_entry ..)
      have hremote := (congrArg FlatCell.remote hcell).trans
        (FlatCell.completed_remote_of_not_moves hmoves runtime)
      refine h.imp (fun hstored => ?_) fun hstored => ne_of_eq_of_ne hremote.symm hstored
      have hkept := ne_of_eq_of_ne hentry.symm hstored
      split_ifs at hkept
      · exact absurd rfl hkept
      · exact hkept

theorem stored_of_fetchPlan {object : ObjectValueRef}
    (h : map.fetchPlan outside key nowMs = some object) : Stored map key := by
  obtain ⟨plan, hplan, -⟩ := map_eq_some_iff.mp h
  obtain ⟨remote, -, -, -, hremote⟩ := prepareObjectFault_spec
    (Prod.ext hplan rfl : map.prepareObjectFaultHashed outside key nowMs false = (some plan, _))
  exact completions_stored (.inr (by rw [hremote]; exact some_ne_none _))

section Tagged

variable {hashKey : Bytes → ℕ}

/-- A readable resident entry under another key with the hash and the length of this one. -/
def HasCollision (hashKey : Bytes → ℕ) (map : FlatMap) (key : Bytes) : Prop :=
  ∃ other, other ≠ key ∧ hashKey other = hashKey key ∧ other.length = key.length ∧
    map.getRefHashedSharedNoTtl other ≠ none

/-- The lookup with the hash, the tag and the length of a key. -/
abbrev readTagged (hashKey : Bytes → ℕ) (map : FlatMap) (key : Bytes) : Option Bytes :=
  map.getSharedValueBytesHashedTaggedNoTtl hashKey (hashKey key)
    (hashKeyTagFromHash (hashKey key)) key.length

theorem mem_keys_of_readable (h : map.getRefHashedSharedNoTtl other ≠ none) :
    map.entries.lookup other ≠ none := by
  intro hnone
  apply h
  rw [getRefHashedSharedNoTtl, findReadable, hnone]
  rfl

theorem tagged_eq_some {value : Bytes} (h : map.readTagged hashKey key = some value) :
    ∃ other, hashKey other = hashKey key ∧ other.length = key.length ∧
      map.getRefHashedSharedNoTtl other = some value := by
  obtain ⟨before, other, after, hsplit, hvalue, -⟩ := List.findSome?_eq_some_iff.mp h
  have hmem : other ∈ before ++ other :: after := by simp
  rw [← hsplit] at hmem
  obtain ⟨-, hsame⟩ := List.mem_filter.mp hmem
  obtain ⟨hhash, -, hlength⟩ := of_decide_eq_true hsame
  exact ⟨other, hhash, hlength, hvalue⟩

theorem tagged_ne_none (hhash : hashKey other = hashKey key) (hlength : other.length = key.length)
    (hreadable : map.getRefHashedSharedNoTtl other ≠ none) :
    map.readTagged hashKey key ≠ none := by
  intro hnone
  apply hreadable
  apply List.findSome?_eq_none_iff.mp hnone other
  have hkeys : other ∈ map.entries.keys := by
    rw [← AList.mem_keys]
    exact AList.lookup_isSome.mp (isSome_iff_ne_none.mpr (mem_keys_of_readable hreadable))
  exact List.mem_filter.mpr ⟨hkeys, decide_eq_true ⟨hhash, by rw [hhash], hlength⟩⟩

/-- A readable key is found by its hash, tag and length, unless it has a double. -/
theorem tagged_of_readable {value : Bytes}
    (hunique : ∀ other, map.getRefHashedSharedNoTtl other ≠ none → hashKey other = hashKey key →
      other.length = key.length → other = key)
    (hreadable : map.getRefHashedSharedNoTtl key = some value) :
    map.readTagged hashKey key = some value := by
  cases hfound : map.readTagged hashKey key with
  | none => exact absurd hfound (tagged_ne_none rfl rfl (by rw [hreadable]; exact some_ne_none _))
  | some =>
    obtain ⟨other, hhash, hlength, hvalue⟩ := tagged_eq_some hfound
    obtain rfl := hunique other (by rw [hvalue]; exact some_ne_none _) hhash hlength
    rw [← hvalue, hreadable]

/-- An unreadable key is mistaken for another one exactly when they collide. -/
theorem tagged_eq_none_iff (hunreadable : map.getRefHashedSharedNoTtl key = none) :
    map.readTagged hashKey key = none ↔ ¬ HasCollision hashKey map key := by
  constructor
  · rintro hnone ⟨other, -, hhash, hlength, hreadable⟩
    exact tagged_ne_none hhash hlength hreadable hnone
  · intro hfree
    cases hfound : map.readTagged hashKey key with
    | none => rfl
    | some =>
      obtain ⟨other, hhash, hlength, hvalue⟩ := tagged_eq_some hfound
      refine absurd ⟨other, ?_, hhash, hlength, ?_⟩ hfree
      · rintro rfl
        rw [hunreadable] at hvalue
        cases hvalue
      · rw [hvalue]
        exact some_ne_none _

end Tagged
end FlatMap

open FlatMap

/-- A store whose counters are exact. -/
structure FullKeyStore extends EmbeddedStore where
  accounted : ∀ shardId, Accounted (shards shardId).map

/-- No two stored keys share hash and length, in whatever shards they lie. -/
def FullKeyStore.Unambiguous (hashKey : Bytes → ℕ) (store : FullKeyStore) : Prop :=
  ∀ shardId shardId' first second, Stored (store.shards shardId).map first →
    Stored (store.shards shardId').map second → hashKey first = hashKey second →
    first.length = second.length → first = second

instance : Coe FullKeyConfig EmbeddedConfig := ⟨FullKeyConfig.toEmbeddedConfig⟩

instance : Coe FullKeyStore EmbeddedStore := ⟨FullKeyStore.toEmbeddedStore⟩

/-- What a native GET comes down to. -/
inductive GetForm
  /-- Unsupported, or not the shard of this worker. -/
  | refused
  /-- With the key bytes, and fetching when needed. -/
  | byKey
  /-- With the key bytes in the table of the first shard, and then in the shard of the key. -/
  | firstThenKey
  /-- With the key bytes, in the table only. -/
  | resident
  /-- By hash, tag and length, in the table of one shard only. -/
  | byTag (shardId : ℕ)
  /-- Null, whatever is stored. -/
  | blind

open GetForm
/-- The frame for a key: hash, tag and length are those of the key. -/
def ScnpGetFrame.ofKey (hashKey : Bytes → ℕ) (key : Bytes) (flags : ScnpFlags) (routeShard : ℕ)
    (withKey : Bool) : ScnpGetFrame where
  flags
  keyHash := hashKey key
  routeShard
  keyTag := hashKeyTagFromHash (hashKey key)
  keyLen := key.length
  body := if withKey then key else []

section Forms

variable {config : FullKeyConfig} (build : ServerBuild) (ctx : ScnpContext config)
  (store : FullKeyStore) (outside : Outside) (nowMs : ℕ) (key : Bytes) (flags : ScnpFlags)
  (routeShard : ℕ) (withKey : Bool)

/-- The flat map of the shard of a key. -/
def FullKeyStore.home (config : FullKeyConfig) (store : FullKeyStore) (key : Bytes) : FlatMap :=
  (store.shards (config.routeKey key).shardId).map

/-- The value that a read by key finds. -/
abbrev FullKeyStore.read (config : FullKeyConfig) (store : FullKeyStore) (outside : Outside)
    (key : Bytes) (nowMs : ℕ) : Option Bytes :=
  hitOrMiss ((store.home config key).tryGetValueBytes outside key nowMs)

/-- Which form a frame takes depends on the maps only through their deadline counters. -/
def GetForm.ofFrame (frame : ScnpGetFrame) : GetForm :=
  let home := (config.routeKey key).shardId
  let noTtl := (store.home config key).hasNoTtlEntries
  match frame.select ctx false with
  | .unsupported => .refused
  | .fullKeyTaggedOwnedShard =>
    if !ctx.requestMatchesOwnedShard frame.routeShard frame.keyHash then .refused
    else if build.lockFree && noTtl then .byTag home
    else if !frame.hasEmbeddedKey then .refused
    else if noTtl then .resident
    else .byKey
  | .fullKeyTagged =>
    if build.lockFree && (store.shards 0).map.hasNoTtlEntries then .byTag 0 else .blind
  | .fullKey =>
    if frame.body.length ≠ frame.keyLen then .refused
    else if build.lockFree then .firstThenKey
    else .byKey
  | .generic =>
    if frame.body.length = 0 ∧ frame.flags.keyTag = true then
      if noTtl then .byTag home else .blind
    else if frame.body.length ≠ frame.keyLen then .refused
    else if ctx.singleThreaded && ctx.hasQueue && build.lockFree then .firstThenKey
    else .byKey

def ScnpDispatch.Refused (dispatch : ScnpDispatch) : Prop :=
  dispatch = .unsupported ∨ dispatch = .complete (.error routeShardMismatch)

/-- What a form finds; a refused one does not look. -/
def GetForm.found (config : FullKeyConfig) (store : FullKeyStore) (outside : Outside) (nowMs : ℕ)
    (key : Bytes) : GetForm → Option (Option Bytes)
  | refused => none
  | byKey => some (store.read config outside key nowMs)
  | firstThenKey => some (((store.shards 0).map.getSharedValueBytesHashed key nowMs).or
      (store.read config outside key nowMs))
  | resident => some ((store.home config key).getSharedValueBytesHashed key nowMs)
  | byTag shardId => some ((store.shards shardId).map.readTagged config.hashKey key)
  | blind => some none

/-- The dispatches a form allows. -/
def GetForm.Answers (config : FullKeyConfig) (store : FullKeyStore) (outside : Outside) (nowMs : ℕ)
    (key : Bytes) (dispatch : ScnpDispatch) (form : GetForm) : Prop :=
  match form.found config store outside nowMs key with
  | none => dispatch.Refused
  | some value => dispatch = answerOf value

variable {build ctx store outside nowMs key flags routeShard withKey}

theorem FullKeyStore.accounted_home (key : Bytes) : Accounted (store.home config key) :=
  store.accounted _

theorem FullKeyConfig.shardId_routeKey (key : Bytes) :
    (config.routeKey key).shardId = config.routeHash (config.hashKey key) := by
  simp only [EmbeddedConfig.routeKey, computeKeyRoute, config.fullKey]
  rfl

theorem mapFor_hash (key : Bytes) :
    store.mapFor config (config.hashKey key) = store.home config key := by
  rw [FullKeyStore.home, config.shardId_routeKey]
  rfl

/-- The only shard is the shard of every key. -/
theorem only_shard (hsingle : config.shardBits = 0) (key : Bytes) :
    (store.shards 0).map = store.home config key := by
  have hroute : config.routeHash (config.hashKey key) = 0 := by
    simp [EmbeddedConfig.routeHash, EmbeddedConfig.shift, hsingle, stripeIndex, shiftFor]
  rw [FullKeyStore.home, config.shardId_routeKey, hroute]

theorem tryGetValueBytes_of_resident {value : Bytes}
    (h : (store.home config key).getSharedValueBytesHashed key nowMs = some value) :
    store.read config outside key nowMs = some value := by
  rw [FullKeyStore.read, tryGetValueBytes, h]
  rfl

theorem withValueBytesRouteHashed_eq :
    store.withValueBytesRouteHashed config outside (config.hashKey key) key
        nowMs = store.read config outside key nowMs := by
  rw [withValueBytesRouteHashed, mapFor_hash, tryWithValueBytes_eq (store.accounted_home key)]

/-- Looking at the table first changes nothing. -/
theorem resident_first (rest : Option Bytes) (hrest : rest = store.read config outside key nowMs) :
    (match (store.home config key).getSharedByTtl key nowMs with
      | some value => some value
      | none => rest) =
      store.read config outside key nowMs := by
  rw [getSharedByTtl_eq (store.accounted_home key)]
  cases hresident : (store.home config key).getSharedValueBytesHashed key nowMs with
  | none => exact hrest
  | some => exact (tryGetValueBytes_of_resident hresident).symm

theorem onlyShard_or :
    (if config.shardCount = 1 then (store.shards 0).map.getSharedByTtl key nowMs else none).or
        ((store.home config key).getSharedByTtl key nowMs) =
      (store.home config key).getSharedByTtl key nowMs := by
  split_ifs with hsingle
  · have hbits : config.shardBits = 0 := by
      rw [EmbeddedConfig.shardCount] at hsingle
      exact (Nat.pow_eq_one.mp hsingle).resolve_left (by decide)
    rw [only_shard hbits key]
    cases (store.home config key).getSharedByTtl key nowMs <;> rfl
  · rfl

theorem withValueBytesRouteHashedSingleThreaded_eq :
    store.withValueBytesRouteHashedSingleThreaded config build outside
        (config.hashKey key) key nowMs =
      store.read config outside key nowMs := by
  unfold withValueBytesRouteHashedSingleThreaded
  cases build.lockFree with
  | false => exact withValueBytesRouteHashed_eq
  | true =>
    simp only [mapFor_hash, onlyShard_or]
    exact resident_first _ withValueBytesRouteHashed_eq

theorem withSharedValueBytesRouteHashedSingleThreaded_eq :
    store.withSharedValueBytesRouteHashedSingleThreaded config build outside
        (config.hashKey key) key nowMs =
      store.read config outside key nowMs := by
  unfold withSharedValueBytesRouteHashedSingleThreaded
  cases build.lockFree with
  | false => exact withValueBytesRouteHashed_eq
  | true =>
    simp only [mapFor_hash, onlyShard_or]
    exact resident_first _ rfl

theorem withSharedValueBytesFullKeySingleThreaded_eq :
    store.withSharedValueBytesFullKeySingleThreaded config build outside
        (config.hashKey key) key nowMs =
      if build.lockFree then ((store.shards 0).map.getSharedValueBytesHashed key nowMs).or
        (store.read config outside key nowMs)
      else store.read config outside key nowMs := by
  unfold withSharedValueBytesFullKeySingleThreaded
  cases build.lockFree with
  | false => exact withValueBytesRouteHashed_eq
  | true =>
    simp only [mapFor_hash, getSharedByTtl_eq (store.accounted 0)]
    cases (store.shards 0).map.getSharedValueBytesHashed key nowMs <;> rfl

theorem fastGetValueInto_eq {frame : ScnpGetFrame} (hhash : frame.keyHash = config.hashKey key) :
    frame.fastGetValueInto build ctx store outside nowMs key =
      if ctx.singleThreaded && ctx.hasQueue && build.lockFree then
        ((store.shards 0).map.getSharedValueBytesHashed key nowMs).or
          (store.read config outside key nowMs)
      else store.read config outside key nowMs := by
  unfold fastGetValueInto
  rw [hhash, withSharedValueBytesFullKeySingleThreaded_eq,
    withValueBytesRouteHashedSingleThreaded_eq, withValueBytesRouteHashed_eq]
  cases ctx.singleThreaded <;> cases ctx.hasQueue <;> rfl

/-- Hash, tag and length are those of the key, and the body is the key or nothing. -/
structure ScnpGetFrame.IsFor (frame : ScnpGetFrame) (hashKey : Bytes → ℕ) (key : Bytes) : Prop where
  keyHash : frame.keyHash = hashKey key
  keyTag : frame.keyTag = hashKeyTagFromHash (hashKey key)
  keyLen : frame.keyLen = key.length
  body : frame.body = key ∨ frame.body = []

theorem requestMatches_route {frame : ScnpGetFrame}
    (h : ctx.requestMatchesOwnedShard frame.routeShard frame.keyHash = true) :
    ctx.ownedShardId.isNone = false ∧ frame.routeShard < config.shardCount ∧
      config.routeHash frame.keyHash = frame.routeShard := by
  unfold ScnpContext.requestMatchesOwnedShard at h
  cases howned : ctx.ownedShardId with
  | none => simp [howned] at h
  | some =>
    simp only [howned, any_some, Bool.and_eq_true, decide_eq_true_eq] at h
    obtain ⟨⟨hroute, hlt⟩, hhome⟩ := h
    rw [hroute]
    exact ⟨rfl, hlt, hhome⟩

theorem shards_of_route (store : FullKeyStore) {shardId : ℕ}
    (h : config.routeHash (config.hashKey key) = shardId) :
    (store.shards shardId).map = store.home config key := by
  rw [FullKeyStore.home, config.shardId_routeKey, h]

theorem hasNoTtlEntries_iff {map : FlatMap} : map.hasNoTtlEntries = true ↔ map.ttlEntries = 0 := by
  simp [hasNoTtlEntries]

variable {frame : ScnpGetFrame} (hframe : frame.IsFor config.hashKey key)

include hframe

theorem ScnpGetFrame.IsFor.body_of_length (h : frame.body.length = frame.keyLen) :
    frame.body = key := by
  rcases hframe.body with hbody | hbody
  · exact hbody
  · rw [hbody, hframe.keyLen] at h
    rw [hbody, List.eq_nil_of_length_eq_zero h.symm]

theorem ScnpGetFrame.IsFor.body_of_embedded (h : frame.hasEmbeddedKey = true) :
    frame.body = key := by
  rcases hframe.body with hbody | hbody
  · exact hbody
  · simp [hasEmbeddedKey, hbody] at h

theorem ScnpGetFrame.IsFor.lengthCheck :
    (frame.hasEmbeddedKey && decide (frame.keyLen ≠ frame.body.length)) = false := by
  rcases hframe.body with hbody | hbody <;> simp [hasEmbeddedKey, hbody, hframe.keyLen]

section OwnedShard

variable (hmatch : ctx.requestMatchesOwnedShard frame.routeShard frame.keyHash = true)

include hmatch

theorem taggedOwnedShard_eq (store : FullKeyStore) (build : ServerBuild) :
    store.withSharedValueBytesFullKeyTaggedOwnedShardNoTtl config build
        frame.routeShard frame.keyHash frame.keyTag frame.keyLen =
      if build.lockFree && (store.home config key).hasNoTtlEntries then
        some ((store.home config key).getSharedValueBytesHashedTaggedNoTtl config.hashKey
          frame.keyHash frame.keyTag frame.keyLen)
      else none := by
  obtain ⟨-, hlt, hroute⟩ := requestMatches_route hmatch
  have hmap := shards_of_route store (hframe.keyHash ▸ hroute)
  unfold withSharedValueBytesFullKeyTaggedOwnedShardNoTtl
  rw [hmap]
  cases build.lockFree <;> cases (store.home config key).hasNoTtlEntries <;> simp [hlt, hroute]

theorem ownedShard_eq (store : FullKeyStore) (nowMs : ℕ) :
    store.withSharedValueBytesFullKeyOwnedShardNoTtl config frame.routeShard
        (config.hashKey key) key =
      if (store.home config key).hasNoTtlEntries then
        some ((store.home config key).getSharedValueBytesHashed key nowMs)
      else none := by
  obtain ⟨-, hlt, hroute⟩ := requestMatches_route hmatch
  rw [hframe.keyHash] at hroute
  have hmap := shards_of_route store hroute
  unfold withSharedValueBytesFullKeyOwnedShardNoTtl
  rw [hmap]
  cases hzero : (store.home config key).hasNoTtlEntries with
  | false => simp
  | true =>
    have hagree := (store.accounted_home key).fastPathsAgree (hasNoTtlEntries_iff.mp hzero) key
      nowMs
    simp [hlt, hroute, hagree.shared]

theorem ownedShardByKey_eq (hembedded : frame.hasEmbeddedKey = true) (hbody : frame.body = key) :
    frame.tryExecuteOwnedShardByKey build ctx store outside nowMs =
      if !build.lockFree && (store.home config key).hasNoTtlEntries then
        answerOf ((store.home config key).getSharedValueBytesHashed key nowMs)
      else answerOf (store.read config outside key nowMs) := by
  obtain ⟨howned, -, -⟩ := requestMatches_route hmatch
  have hroute := ownedShard_eq hframe hmatch store nowMs
  rw [hframe.keyHash] at hmatch
  unfold tryExecuteOwnedShardByKey
  simp only [hembedded, howned, hmatch, hbody, hroute, hframe.keyHash,
    withSharedValueBytesRouteHashedSingleThreaded_eq]
  cases build.lockFree <;> cases (store.home config key).hasNoTtlEntries <;> rfl

end OwnedShard

theorem ownedShard_answers (hselect : frame.select ctx false = .fullKeyTaggedOwnedShard) :
    (ofFrame build ctx store key frame).Answers config store outside nowMs key
      (frame.tryExecuteFullKeyTaggedOwnedShard build ctx store outside nowMs) := by
  unfold ofFrame tryExecuteFullKeyTaggedOwnedShard
  simp only [hselect, hframe.lengthCheck, Bool.false_eq_true, if_false]
  cases hmatch : ctx.requestMatchesOwnedShard frame.routeShard frame.keyHash with
  | false => exact .inr rfl
  | true =>
    rw [taggedOwnedShard_eq hframe hmatch, hframe.keyHash, hframe.keyTag, hframe.keyLen]
    cases hshort : build.lockFree && (store.home config key).hasNoTtlEntries with
    | true => rfl
    | false =>
      cases hembedded : frame.hasEmbeddedKey with
      | false =>
        left
        simp [tryExecuteOwnedShardByKey, hembedded]
      | true =>
        simp only [Bool.false_eq_true, if_false, Bool.not_true,
          ownedShardByKey_eq hframe hmatch hembedded (hframe.body_of_embedded hembedded)]
        cases hfree : build.lockFree <;>
          cases hzero : (store.home config key).hasNoTtlEntries <;>
          simp_all [GetForm.Answers, GetForm.found]

theorem fullKeyTagged_answers (hselect : frame.select ctx false = .fullKeyTagged) :
    (ofFrame build ctx store key frame).Answers config store outside nowMs key
      (frame.tryExecuteFullKeyTagged build store config) := by
  unfold ofFrame tryExecuteFullKeyTagged getSharedValueBytesFullKeyTaggedSingleThreaded
  simp only [hselect, hframe.lengthCheck, Bool.false_eq_true, if_false]
  rw [hframe.keyHash, hframe.keyTag, hframe.keyLen]
  cases build.lockFree with
  | false => rfl
  | true => cases (store.shards 0).map.hasNoTtlEntries <;> rfl

theorem fullKey_answers (hselect : frame.select ctx false = .fullKey) :
    (ofFrame build ctx store key frame).Answers config store outside nowMs key
      (frame.tryExecuteFullKey build ctx store outside nowMs) := by
  unfold ofFrame tryExecuteFullKey
  simp only [hselect]
  by_cases hlength : frame.body.length = frame.keyLen
  · rw [if_neg (not_not.mpr hlength), if_neg (not_not.mpr hlength.symm),
      hframe.body_of_length hlength, fastGetValueInto_eq hframe.keyHash]
    unfold getSharedValueBytesFullKeySingleThreaded
    cases build.lockFree with
    | false =>
      rw [Bool.and_false]
      rfl
    | true =>
      have hfirst : (if (store.shards 0).map.hasNoTtlEntries then
            (store.shards 0).map.getRefHashedSharedNoTtl key
          else (store.shards 0).map.getSharedValueBytesHashed key nowMs) =
          (store.shards 0).map.getSharedValueBytesHashed key nowMs := by
        split_ifs with hzero
        · exact ((store.accounted 0).fastPathsAgree (hasNoTtlEntries_iff.mp hzero) key nowMs).shared
        · rfl
      simp only [Bool.not_true, Bool.false_eq_true, if_false, if_true, hfirst, GetForm.Answers,
        GetForm.found]
      cases (store.shards 0).map.getSharedValueBytesHashed key nowMs with
      | some => rfl
      | none => split_ifs <;> rfl
  · rw [if_pos hlength, if_pos (Ne.symm hlength)]
    exact .inl rfl

theorem generic_answers (hselect : frame.select ctx false = .generic) :
    (ofFrame build ctx store key frame).Answers config store outside nowMs key
      (frame.tryExecuteGeneric build ctx store outside nowMs) := by
  unfold ofFrame tryExecuteGeneric
  simp only [hselect]
  by_cases hkeyless : frame.body.length = 0 ∧ frame.flags.keyTag = true
  · simp only [if_pos hkeyless, withSharedValueBytesFullKeyTaggedNoTtl,
      hframe.keyHash, hframe.keyTag, hframe.keyLen, mapFor_hash]
    cases (store.home config key).hasNoTtlEntries <;> rfl
  · simp only [if_neg hkeyless]
    by_cases hlength : frame.body.length = frame.keyLen
    · rw [if_neg (not_not.mpr hlength), if_neg (not_not.mpr hlength),
        hframe.body_of_length hlength, fastGetValueInto_eq hframe.keyHash]
      split_ifs <;> rfl
    · rw [if_pos hlength, if_pos hlength]
      exact .inl rfl

/-- Every native GET of a key answers as its form does. -/
theorem tryExecuteScnp_answers :
    (ofFrame build ctx store key frame).Answers config store outside nowMs key
      (frame.tryExecuteScnp build ctx store outside nowMs false) := by
  unfold tryExecuteScnp
  cases hselect : frame.select ctx false with
  | unsupported =>
    unfold ofFrame
    rw [hselect]
    exact .inl rfl
  | fullKeyTaggedOwnedShard => exact ownedShard_answers hframe hselect
  | fullKeyTagged => exact fullKeyTagged_answers hframe hselect
  | fullKey => exact fullKey_answers hframe hselect
  | generic => exact generic_answers hframe hselect

omit hframe

/-- A value that GET may hand out in this build. -/
def ServerBuild.Plain (build : ServerBuild) (value : Bytes) : Prop :=
  (build.redis && vectorSetMark.isPrefixOf value) = false

/-- The resident value, and the object to fetch when there is none. -/
def FullKeyStore.resident (config : FullKeyConfig) (store : FullKeyStore) (key : Bytes)
    (nowMs : ℕ) : Option Bytes :=
  (store.home config key).getSharedValueBytesHashed key nowMs

def FullKeyStore.remote (config : FullKeyConfig) (store : FullKeyStore) (outside : Outside)
    (key : Bytes) (nowMs : ℕ) : Option ObjectValueRef :=
  (store.home config key).fetchPlan outside key nowMs

section

variable (config : FullKeyConfig) (build : ServerBuild) (store : FullKeyStore) (outside : Outside)
  (nowMs : ℕ) (key : Bytes)

/-- The key is neither in the table of its shard nor offloaded. -/
def FullKeyStore.Absent : Prop :=
  store.resident config key nowMs = none ∧ store.remote config outside key nowMs = none

/-- This is the value of the key, resident or fetched. -/
def FullKeyStore.Gives (value : Bytes) : Prop :=
  build.Plain value ∧ (store.resident config key nowMs = some value ∨
    store.resident config key nowMs = none ∧ ∃ object,
      store.remote config outside key nowMs = some object ∧ outside.getValue object = .ok value)

/-- The value of the key, if it has one, is no vector set and can be fetched. -/
def FullKeyStore.Readable : Prop :=
  (∀ value, store.resident config key nowMs = some value → build.Plain value) ∧
    ∀ object, store.resident config key nowMs = none →
      store.remote config outside key nowMs = some object →
      ∃ value, outside.getValue object = .ok value ∧ build.Plain value

/-- A form sees what the shard of the key holds. -/
def GetForm.Sees : GetForm → Prop
  | refused => True
  | byKey => store.Readable config build outside nowMs key
  | firstThenKey =>
    (∀ value, (store.shards 0).map.getSharedValueBytesHashed key nowMs = some value →
      store.Gives config build outside nowMs key value) ∧
    ((store.shards 0).map.getSharedValueBytesHashed key nowMs = none →
      store.Readable config build outside nowMs key)
  | resident =>
    (∀ value, store.resident config key nowMs = some value → build.Plain value) ∧
      (store.resident config key nowMs = none → store.remote config outside key nowMs = none)
  | byTag shardId =>
    (∀ value, (store.shards shardId).map.getRefHashedSharedNoTtl key = some value →
      store.Gives config build outside nowMs key value) ∧
    ((store.shards shardId).map.getRefHashedSharedNoTtl key = none →
      store.Absent config outside nowMs key ∧
        ¬ HasCollision config.hashKey (store.shards shardId).map key)
  | blind => store.Absent config outside nowMs key

end

theorem not_refused_of_answerOf {dispatch : ScnpDispatch} {value : Option Bytes}
    (h : dispatch = answerOf value) : ¬ dispatch.Refused := by
  rw [h]
  cases value <;> simp [ScnpDispatch.Refused, answerOf]

end Forms

section Agreement

variable (config : FullKeyConfig) (build : ServerBuild) (store : FullKeyStore) (outside : Outside)
  (nowMs ownerMinLen : ℕ) (key : Bytes)

theorem respGet_eq : respGet config build store outside nowMs ownerMinLen key =
      match store.resident config key nowMs, store.remote config outside key nowMs with
      | some value, _ => respValue build value
      | none, none => .null
      | none, some object =>
        match outside.getValue object with
        | .ok value => respValue build value
        | .error _ => .error overflowReadFailed := by
  have haccounted : Accounted (store.shards (config.routeKey key).shardId).map := store.accounted _
  unfold respGet FullKeyStore.resident FullKeyStore.remote FullKeyStore.home
  rw [tryWithResponseValueBytes_eq haccounted, tryGetValueBytes_eq]
  cases (store.shards (config.routeKey key).shardId).map.getSharedValueBytesHashed key nowMs with
  | some => rfl
  | none =>
    cases (store.shards (config.routeKey key).shardId).map.fetchPlan outside key nowMs with
    | none => rfl
    | some object => cases hvalue : outside.getValue object <;> simp only [hvalue] <;> rfl

theorem respValue_ne_null (value : Bytes) : GetAnswer.null ≠ respValue build value := by
  unfold respValue
  split_ifs
  · exact GetAnswer.noConfusion
  · exact GetAnswer.noConfusion

theorem value_eq_respValue_iff (value value' : Bytes) :
    GetAnswer.value value = respValue build value' ↔ build.Plain value ∧ value' = value := by
  unfold respValue ServerBuild.Plain
  constructor
  · intro h
    split_ifs at h with hmark
    cases h
    exact ⟨Bool.eq_false_of_not_eq_true hmark, rfl⟩
  · rintro ⟨hplain, rfl⟩
    rw [hplain]
    rfl

/-- RESP answers with a value exactly when it is the value of the key, and with null exactly when
there is none. -/
theorem answerOf_eq_respGet_iff (found : Option Bytes) :
    answerOf found = .complete (respGet config build store outside nowMs ownerMinLen key) ↔
      (∀ value, found = some value → store.Gives config build outside nowMs key value) ∧
        (found = none → store.Absent config outside nowMs key) := by
  rw [respGet_eq]
  unfold FullKeyStore.Gives FullKeyStore.Absent
  cases found with
  | none =>
    cases store.resident config key nowMs with
    | some => simp [answerOf, respValue_ne_null]
    | none =>
      cases store.remote config outside key nowMs with
      | none => simp [answerOf]
      | some object => cases hvalue : outside.getValue object <;>
          simp [answerOf, hvalue, respValue_ne_null]
  | some value =>
    cases store.resident config key nowMs with
    | some => simp [answerOf, value_eq_respValue_iff]
    | none =>
      cases store.remote config outside key nowMs with
      | none => simp [answerOf]
      | some object => cases hvalue : outside.getValue object <;>
          simp [answerOf, hvalue, value_eq_respValue_iff]

/-- What a read by key finds is right unless a fetch fails or the value is a vector set. -/
theorem read_iff :
    (∀ value, store.read config outside key nowMs = some value →
        store.Gives config build outside nowMs key value) ∧
      (store.read config outside key nowMs = none → store.Absent config outside nowMs key) ↔
      store.Readable config build outside nowMs key := by
  have hread : store.read config outside key nowMs = hitOrMiss
      (match store.resident config key nowMs, store.remote config outside key nowMs with
      | some value, _ => .ok (some value)
      | none, none => .ok none
      | none, some object => (outside.getValue object).map some) := by
    rw [FullKeyStore.read, tryGetValueBytes_eq]
    rfl
  rw [hread]
  unfold FullKeyStore.Gives FullKeyStore.Absent FullKeyStore.Readable
  cases store.resident config key nowMs with
  | some => simp [hitOrMiss]
  | none =>
    cases store.remote config outside key nowMs with
    | none => simp [hitOrMiss]
    | some object => cases hvalue : outside.getValue object <;> simp [hitOrMiss, Except.map, hvalue]

/-- What a read by tag finds is right unless the value is not in this table or the key is mistaken
for another one. -/
theorem readTagged_iff (hunique : store.Unambiguous config.hashKey) (shardId : ℕ) :
    (∀ value, (store.shards shardId).map.readTagged config.hashKey key = some value →
        store.Gives config build outside nowMs key value) ∧
      ((store.shards shardId).map.readTagged config.hashKey key = none →
        store.Absent config outside nowMs key) ↔
      (byTag shardId).Sees config build store outside nowMs key := by
  unfold GetForm.Sees
  cases hreadable : (store.shards shardId).map.getRefHashedSharedNoTtl key with
  | some value =>
    have hself : Stored (store.shards shardId).map key :=
      .inl (mem_keys_of_readable (by rw [hreadable]; exact some_ne_none _))
    rw [tagged_of_readable (fun other hother hhash hlength => hunique shardId shardId other key
      (.inl (mem_keys_of_readable hother)) hself hhash hlength) hreadable]
    simp [hreadable]
  | none =>
    have hnone : _ ↔ ¬ HasCollision config.hashKey _ key := tagged_eq_none_iff hreadable
    by_cases hcollision : HasCollision config.hashKey (store.shards shardId).map key
    · -- a collision means that the key itself is not stored, so it has no value
      obtain ⟨other, hne, hhash, hlength, hother⟩ := id hcollision
      have hfree : ¬ Stored (store.home config key) key := fun hstored =>
        hne (hunique shardId _ other key (.inl (mem_keys_of_readable hother)) hstored hhash hlength)
      obtain ⟨found, hfound⟩ := ne_none_iff_exists'.mp (fun h => (hnone.mp h) hcollision)
      rw [hfound]
      have hresident (value : Bytes) : store.resident config key nowMs ≠ some value := by
        intro hvalue
        refine hfree (.inl fun hlookup => ?_)
        simp [FullKeyStore.resident, getSharedValueBytesHashed, findReadable, hlookup] at hvalue
      have hremote (object : ObjectValueRef) :
          store.remote config outside key nowMs ≠ some object :=
        fun hobject => hfree (stored_of_fetchPlan hobject)
      simp [FullKeyStore.Gives, hresident, hremote, hcollision, hreadable]
    · rw [hnone.mpr hcollision]
      simp [hcollision, hreadable]

variable (ctx : ScnpContext config) (flags : ScnpFlags) (routeShard : ℕ) (withKey : Bool)

/-- A native GET is refused or answers what RESP answers exactly when its form sees what the
shard of the key holds. -/
theorem nativeGet_agrees_iff (hunique : store.Unambiguous config.hashKey) :
    let frame := ScnpGetFrame.ofKey config.hashKey key flags routeShard withKey
    let dispatch := frame.tryExecuteScnp build ctx store outside nowMs false
    (dispatch.Refused ∨ dispatch = .complete (respGet config build
        store outside nowMs ownerMinLen key)) ↔
      (ofFrame build ctx store key frame).Sees config build store outside nowMs key := by
  intro frame dispatch
  have hanswers : (ofFrame build ctx store key frame).Answers config store outside nowMs
      key dispatch := tryExecuteScnp_answers ⟨rfl, rfl, rfl, by cases withKey <;> simp [frame, ofKey]⟩
  generalize ofFrame build ctx store key frame = form at hanswers ⊢
  unfold GetForm.Answers at hanswers
  cases hfound : form.found config store outside nowMs key with
  | none =>
    rw [hfound] at hanswers
    cases form with
    | refused => exact iff_of_true (.inl hanswers) trivial
    | _ => cases hfound
  | some found =>
    rw [hfound] at hanswers
    rw [or_iff_right (not_refused_of_answerOf hanswers), hanswers, answerOf_eq_respGet_iff]
    cases form with
    | refused => cases hfound
    | byKey =>
      cases hfound
      exact read_iff ..
    | firstThenKey =>
      cases hfound
      unfold GetForm.Sees
      cases (store.shards 0).map.getSharedValueBytesHashed key nowMs with
      | some => simp
      | none => simpa using read_iff config build store outside nowMs key
    | resident =>
      cases hfound
      change (∀ value, store.resident config key nowMs = some value → _) ∧
        (store.resident config key nowMs = none → _) ↔ _
      unfold GetForm.Sees FullKeyStore.Gives FullKeyStore.Absent
      cases store.resident config key nowMs <;> simp
    | byTag shardId =>
      cases hfound
      exact readTagged_iff config build store outside nowMs key hunique shardId
    | blind =>
      cases hfound
      simp [GetForm.Sees]

end Agreement

/-- Two shards; the first byte of a key makes its hash, and from 128 on it lies on the second. -/
def sampleFullKey : FullKeyConfig where
  hashKey key := (key.headD 0).toNat * 2 ^ 49
  shardBits := 1
  routeMode := .fullKey
  fullKey := rfl

/-- One of several workers, without a shard of its own. -/
def sharedWorker : ScnpContext sampleFullKey where
  singleThreaded := false
  ownedShardId := none
  hasQueue := true

def loneWorker : ScnpContext sampleFullKey := { sharedWorker with singleThreaded := true }

/-- A single key without deadline. -/
def oneKey : FlatMap := FlatMap.setSliceHashed {} {} [1] [10] none 0

/-- Two keys on the first shard and one on the second. -/
def threeKeys : FullKeyStore where
  shards shardId :=
    { map := if shardId = 0 then oneKey.setSliceHashed {} [2] [20] none 0
        else FlatMap.setSliceHashed {} {} [200] [30] none 0 }
  accounted shardId := by
    dsimp only
    split_ifs
    · exact setSliceHashed_accounted {} 0
        (setSliceHashed_accounted {} 0 FlatMapCall.empty_accounted [10] none) [20] none
    · exact setSliceHashed_accounted {} 0 FlatMapCall.empty_accounted [30] none

theorem threeKeys_unambiguous : threeKeys.Unambiguous sampleFullKey.hashKey := by
  have honly (shardId : ℕ) (key : Bytes) (h : Stored (threeKeys.shards shardId).map key) :
      key ∈ [[1], [2], [200]] := by
    rcases h with h | h
    · by_contra hkey
      simp only [List.mem_cons, List.not_mem_nil, or_false, not_or] at hkey
      refine h ?_
      by_cases hfirst : shardId = 0
      · have hentries : (threeKeys.shards shardId).map.entries =
            ((∅ : FinMap Bytes FlatEntry).insert [1] { value := [10] }).insert [2]
              { value := [20] } := by
          subst hfirst
          rfl
        rw [hentries, FinMap.lookup_insert_eq, FinMap.lookup_insert_eq, if_neg hkey.2.1,
          if_neg hkey.1]
        rfl
      · have hentries : (threeKeys.shards shardId).map.entries =
            (∅ : FinMap Bytes FlatEntry).insert [200] { value := [30] } := by
          simp only [threeKeys, if_neg hfirst]
          rfl
        rw [hentries, FinMap.lookup_insert_eq, if_neg hkey.2.2]
        rfl
    · refine absurd ?_ h
      by_cases hfirst : shardId = 0
      · subst hfirst
        rfl
      · simp only [threeKeys, if_neg hfirst]
        rfl
  have hhashes : ∀ first ∈ [[1], [2], [200]], ∀ second ∈ [[1], [2], [200]],
      sampleFullKey.hashKey first = sampleFullKey.hashKey second → first = second := by
    decide
  intro shardId shardId' first second hfirst hsecond hhash _
  exact hhashes first (honly shardId first hfirst) second (honly shardId' second hsecond) hhash

/-- A worker that runs alone looks by tag at the first shard only. -/
theorem nativeGet_agrees_threeKeys :
    let get (key : Bytes) :=
      (ScnpGetFrame.ofKey sampleFullKey.hashKey key scnpFullKeyTaggedFlags 0 false).tryExecuteScnp
        ⟨true, true⟩ loneWorker threeKeys {} 0 false
    let agrees (key : Bytes) := (get key).Refused ∨
      get key = .complete (respGet sampleFullKey ⟨true, true⟩ threeKeys {} 0 0 key)
    agrees [1] ∧ agrees [2] ∧ ¬ agrees [200] := by
  intro get agrees
  have hiff (key : Bytes) : agrees key ↔ (byTag 0).Sees sampleFullKey ⟨true, true⟩ threeKeys {} 0
      key := nativeGet_agrees_iff sampleFullKey ⟨true, true⟩ threeKeys {} 0 0 key loneWorker
    scnpFullKeyTaggedFlags 0 false threeKeys_unambiguous
  have hsees (key value : Bytes)
      (hreadable : (threeKeys.shards 0).map.getRefHashedSharedNoTtl key = some value)
      (hgives : threeKeys.Gives sampleFullKey ⟨true, true⟩ {} 0 key value) : agrees key := by
    refine (hiff key).mpr ⟨fun other hother => ?_, fun hnone => ?_⟩
    · cases hreadable.symm.trans hother
      exact hgives
    · cases hreadable.symm.trans hnone
  refine ⟨hsees [1] [10] (by decide +kernel) ⟨rfl, .inl (by decide +kernel)⟩,
    hsees [2] [20] (by decide +kernel) ⟨rfl, .inl (by decide +kernel)⟩, fun h => ?_⟩
  obtain ⟨-, habsent⟩ := (hiff [200]).mp h
  have hresident := (habsent (by decide +kernel)).1.1
  exact absurd hresident (by decide +kernel)

/-- The same key, and another one with a deadline. -/
def deadlineElsewhere : EmbeddedStore where
  shards _ := { map := oneKey.setSliceHashed {} [2] [20] (some 1000) 0 }

/-- An overflow store that takes one value and gives it back. -/
def fetching : Outside where
  pollPutValue _ := some (.ok ⟨"a", 1, .none, 0⟩)
  enqueuePutValue _ := some 0
  getValue _ := .ok [10]

def overflowing : FlatMap := { oneKey with objectOverflow := some ⟨true, 0, .retainResident⟩ }

/-- The key after an offload. -/
def offloaded : EmbeddedStore where
  shards _ := {
    map := (overflowing.tryOffloadHashed fetching [1] 0).2.processObjectOverflowCompletions
      fetching 0 }

/-- A live key is answered with null by a GET without key bytes, once because another key of the
shard has a deadline and once because the value is offloaded. -/
theorem liveKey_answered_null :
    (ScnpGetFrame.ofKey sampleFullKey.hashKey [1] scnpFullKeyTaggedFlags 0
        false).tryExecuteScnp ⟨false, true⟩ sharedWorker deadlineElsewhere {} 0 false =
      .complete .null ∧
    respGet sampleFullKey ⟨false, true⟩ deadlineElsewhere {} 0 0 [1] = .value [10] ∧
    (ScnpGetFrame.ofKey sampleFullKey.hashKey [1] scnpFullKeyTaggedFlags 0
        false).tryExecuteScnp ⟨false, true⟩ sharedWorker offloaded fetching 0 false =
      .complete .null ∧
    respGet sampleFullKey ⟨false, true⟩ offloaded fetching 0 0 [1] =
      .value [10] := by
  decide +kernel

end ShardKv
