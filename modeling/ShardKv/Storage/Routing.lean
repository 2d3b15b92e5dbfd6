import ShardKv.Foundations.Bytes

/-!
# Routing keys to shards

A key is routed by a hash of all its bytes or, in session mode, of its session
part: `s:<session>:c:<chunk>` belongs to the session `s:<session>`, where the last
`:c:` of the key counts. The 64-bit hash is a parameter; so is the number of
shards, a power of two that is given by its shift.
-/
namespace ShardKv

inductive EmbeddedRouteMode
  | fullKey
  | sessionPrefix
  | overflowSlot
  deriving DecidableEq

structure EmbeddedKeyRoute (ι : Type) where
  shardId : ι
  keyHash : ℕ

/-- The number of bits of a machine word. -/
def usizeBits : ℕ := 64

def shiftFor (shardBits : ℕ) : ℕ := usizeBits - shardBits

def stripeIndex (hash shift : ℕ) : ℕ :=
  if shift = usizeBits then 0 else hash * 2 ^ 7 % 2 ^ usizeBits / 2 ^ shift

def hashKeyTagFromHash (hash : ℕ) : ℕ := hash / 2 ^ 56

/-- `s:` -/
def sessionMark : Bytes := [115, 58]

/-- `:c:` -/
def chunkMark : Bytes := [58, 99, 58]

def startsWith (key mark : Bytes) : Bool := mark.isPrefixOf key

/-- The loop of `sessionChunkSeparator`, from an index down. -/
def sessionChunkSeparatorFrom (key : Bytes) : ℕ → Option ℕ
  | 0 => if startsWith key chunkMark then some 0 else none
  | index + 1 =>
    if startsWith (key.drop (index + 1)) chunkMark then some (index + 1)
    else sessionChunkSeparatorFrom key index

def sessionChunkSeparator (key : Bytes) : Option ℕ :=
  if key.length < 3 then none else sessionChunkSeparatorFrom key (key.length - 3)

def sessionRoutePrefix (key : Bytes) : Bytes :=
  if startsWith key sessionMark then
    match sessionChunkSeparator key with
    | some index => key.take index
    | none => key
  else key

/-- `session%` -/
def sessionTag : Bytes := [115, 101, 115, 115, 105, 111, 110, 37]

/-- `lmcache-session:` -/
def lmcacheSession : Bytes :=
  [108, 109, 99, 97, 99, 104, 101, 45, 115, 101, 115, 115, 105, 111, 110, 58]

/-- The session whose slab may hold the key, also for keys that name it after an `@`. Splitting
valid UTF-8 at an ASCII character is splitting its bytes. -/
def derivedSessionStoragePrefix (key : Bytes) : Option Bytes :=
  if startsWith key sessionMark then some (sessionRoutePrefix key)
  else if !key.contains 64 then none
  else if !isUtf8 key then none
  else
    ((key.splitOn 64).find? (startsWith · sessionTag)).map fun part =>
      lmcacheSession ++ part.drop sessionTag.length

def pointWriteSessionStoragePrefix (key : Bytes) : Option Bytes :=
  if startsWith key sessionMark then some (sessionRoutePrefix key) else none

def batchDerivedSessionStoragePrefix (keys : List Bytes) : Option Bytes :=
  match keys with
  | [] => none
  | first :: rest =>
    (derivedSessionStoragePrefix first).filter fun session =>
      rest.all fun key => derivedSessionStoragePrefix key = some session

/-- `SCKVKEY1` -/
def overflowSlotKeyMagic : Bytes := [83, 67, 75, 86, 75, 69, 89, 49]

def overflowSlotShard (key : Bytes) (shift : ℕ) : Option ℕ :=
  if key.length < 18 || key.take 8 ≠ overflowSlotKeyMagic then none
  else
    let shardId := leValue ((key.drop 8).take 4)
    let shardCount := if shift = usizeBits then 1 else 2 ^ (usizeBits - shift)
    if shardId < shardCount then some shardId else none

/-- The number of bits to shift by is taken modulo the word, as in a release build; a debug build
panics when the shift is below seven. -/
def routeHashForShard (shardId shift : ℕ) : ℕ :=
  if shift = usizeBits then 0
  else shardId * 2 ^ ((shift + (usizeBits - 7)) % usizeBits) % 2 ^ usizeBits

section Routes

variable (hashKey : Bytes → ℕ)

def computeKeyRoute (routeMode : EmbeddedRouteMode) (shift : ℕ) (key : Bytes) :
    EmbeddedKeyRoute ℕ :=
  let keyHash := hashKey key
  match routeMode with
  | .fullKey => ⟨stripeIndex keyHash shift, keyHash⟩
  | .sessionPrefix => ⟨stripeIndex (hashKey (sessionRoutePrefix key)) shift, keyHash⟩
  | .overflowSlot =>
    match overflowSlotShard key shift with
    | some shardId => ⟨shardId, keyHash⟩
    | none => ⟨stripeIndex keyHash shift, keyHash⟩

def computeSessionShard (shift : ℕ) (session : Bytes) : ℕ := stripeIndex (hashKey session) shift

/-- The hash that selects the shard in the batch calls. -/
def routeHashForKey (routeMode : EmbeddedRouteMode) (shift : ℕ) (key : Bytes) : ℕ :=
  match routeMode with
  | .fullKey => hashKey key
  | .sessionPrefix => hashKey (sessionRoutePrefix key)
  | .overflowSlot => ((overflowSlotShard key shift).map (routeHashForShard · shift)).getD
    (hashKey key)

end Routes

variable (routeMode : EmbeddedRouteMode)

def canRouteWithKeyHash (shardCount : ℕ) (key : Bytes) : Bool :=
  match routeMode with
  | .fullKey => true
  | .sessionPrefix => shardCount = 1 || !startsWith key sessionMark
  | .overflowSlot => shardCount = 1

def canUseRouteHashAsKeyHash (key : Bytes) : Bool :=
  match routeMode with
  | .fullKey => true
  | .sessionPrefix => !startsWith key sessionMark
  | .overflowSlot => false

def usesFlatKeyStorage (key : Bytes) : Bool :=
  routeMode = .fullKey || (derivedSessionStoragePrefix key).isNone

/-- The stripe of a hash is the top of its shifted bits, also when there is only one stripe. -/
theorem stripeIndex_shiftFor (hash bits : ℕ) : stripeIndex hash (shiftFor bits) =
    hash * 2 ^ 7 % 2 ^ usizeBits / 2 ^ (usizeBits - bits) := by
  rw [stripeIndex, shiftFor]
  split_ifs with hone
  · rw [hone]
    exact (Nat.div_eq_of_lt (Nat.mod_lt _ (by decide))).symm
  · rfl

theorem stripeIndex_lt (hash bits : ℕ) : stripeIndex hash (shiftFor bits) < 2 ^ bits := by
  rw [stripeIndex_shiftFor]
  apply Nat.div_lt_of_lt_mul
  rw [← pow_add]
  have hlt : hash * 2 ^ 7 % 2 ^ usizeBits < 2 ^ usizeBits := Nat.mod_lt _ (by decide)
  exact hlt.trans_le (Nat.pow_le_pow_right (by decide) (by omega))

/-- The shards of a store. They are the items of one boxed slice, padded to cache lines of
thirty-two bytes at least, and no allocation is larger than `isize::MAX`. -/
structure StoreShards where
  bits : ℕ
  allocated : 2 ^ bits * 32 ≤ 2 ^ 63 - 1

theorem StoreShards.bits_le (shards : StoreShards) : shards.bits ≤ 57 := by
  by_contra hbits
  have hpow : 2 ^ 58 ≤ 2 ^ shards.bits := Nat.pow_le_pow_right (by decide) (by omega)
  have hfits := shards.allocated
  omega

section Shortcuts

variable (hashKey : Bytes → ℕ) (routeMode : EmbeddedRouteMode) (shards : StoreShards) (key : Bytes)

/-- What the shortcuts take for granted. -/
structure RoutesAgree : Prop where
  shardId_lt : (computeKeyRoute hashKey routeMode (shiftFor shards.bits) key).shardId <
    2 ^ shards.bits
  keyHash : canRouteWithKeyHash routeMode (2 ^ shards.bits) key = true ∨
      canUseRouteHashAsKeyHash routeMode key = true →
    stripeIndex (hashKey key) (shiftFor shards.bits) =
      (computeKeyRoute hashKey routeMode (shiftFor shards.bits) key).shardId
  session : routeMode = .sessionPrefix → ∀ session ∈ pointWriteSessionStoragePrefix key,
    computeSessionShard hashKey (shiftFor shards.bits) session =
      (computeKeyRoute hashKey routeMode (shiftFor shards.bits) key).shardId
  inverse : ∀ shardId < 2 ^ shards.bits,
    stripeIndex (routeHashForShard shardId (shiftFor shards.bits)) (shiftFor shards.bits) = shardId

theorem computeKeyRoute_lt :
    (computeKeyRoute hashKey routeMode (shiftFor shards.bits) key).shardId < 2 ^ shards.bits := by
  cases routeMode with
  | fullKey => exact stripeIndex_lt _ _
  | sessionPrefix => exact stripeIndex_lt _ _
  | overflowSlot =>
    simp only [computeKeyRoute]
    split
    next shardId hshard =>
      simp only [overflowSlotShard] at hshard
      split_ifs at hshard with _ hone hlt hlt
      · cases hshard
        exact hlt.trans_le Nat.one_le_two_pow
      · cases hshard
        refine hlt.trans_le (Nat.pow_le_pow_right (by decide) ?_)
        unfold shiftFor
        omega
    next => exact stripeIndex_lt _ _

/-- The shift leaves room for the seven bits that the stripe index drops. -/
theorem stripeIndex_routeHashForShard {shardId : ℕ} (h : shardId < 2 ^ shards.bits) :
    stripeIndex (routeHashForShard shardId (shiftFor shards.bits)) (shiftFor shards.bits) =
      shardId := by
  have hbits := shards.bits_le
  unfold stripeIndex routeHashForShard
  split_ifs with hone
  · have hzero : shards.bits = 0 := by
      unfold shiftFor usizeBits at hone
      omega
    rw [hzero, pow_zero] at h
    omega
  · have hcount :
        (shiftFor shards.bits + (usizeBits - 7)) % usizeBits + 7 = shiftFor shards.bits := by
      unfold shiftFor usizeBits at hone ⊢
      omega
    have hfits : shardId * 2 ^ shiftFor shards.bits < 2 ^ usizeBits := by
      calc shardId * 2 ^ shiftFor shards.bits
          < 2 ^ shards.bits * 2 ^ shiftFor shards.bits :=
            Nat.mul_lt_mul_of_pos_right h (Nat.two_pow_pos _)
        _ = 2 ^ usizeBits := by
            rw [← pow_add, shiftFor, Nat.add_sub_cancel' (hbits.trans (by decide))]
    rw [Nat.mod_mul_mod, mul_assoc, ← pow_add, hcount, Nat.mod_eq_of_lt hfits,
      Nat.mul_div_cancel _ (Nat.two_pow_pos _)]

/-- The shortcuts of every store agree with the full computation. -/
theorem shortcuts_agree : RoutesAgree hashKey routeMode shards key where
  shardId_lt := computeKeyRoute_lt ..
  keyHash hguard := by
    have halone (hcount : 2 ^ shards.bits = 1) :
        stripeIndex (hashKey key) (shiftFor shards.bits) =
          (computeKeyRoute hashKey routeMode (shiftFor shards.bits) key).shardId := by
      have hstripe := stripeIndex_lt (hashKey key) shards.bits
      have hroute := computeKeyRoute_lt hashKey routeMode shards key
      omega
    cases routeMode with
    | fullKey => rfl
    | sessionPrefix =>
      cases hmark : startsWith key sessionMark with
      | true =>
        simp only [canRouteWithKeyHash, canUseRouteHashAsKeyHash, hmark] at hguard
        exact halone (by simpa using hguard)
      | false => simp [computeKeyRoute, sessionRoutePrefix, hmark]
    | overflowSlot =>
      simp only [canRouteWithKeyHash, canUseRouteHashAsKeyHash] at hguard
      exact halone (by simpa using hguard)
  session := by
    rintro rfl session hsession
    unfold pointWriteSessionStoragePrefix at hsession
    split_ifs at hsession <;> cases hsession
    rfl
  inverse _ := stripeIndex_routeHashForShard shards

end Shortcuts
end ShardKv
