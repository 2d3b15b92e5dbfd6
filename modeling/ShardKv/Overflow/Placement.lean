import ShardKv.Foundations.FloorPartition
import ShardKv.Foundations.FrameLog
import ShardKv.Storage.Routing
import Mathlib.Data.List.GetD

/-!
# Placement of overflow slots

The hash of a key selects a slot, and a table gives each slot the node that owns it. The
slots are divided among the primary shards, and the slots of a primary shard among its
targets: whole replicas when there are enough of them, single nodes when there are enough
of those, and a shared node otherwise.

Nodes have the fields that placement looks at. A previous shard count of zero, which the
configuration excludes, would divide by zero and is left out.
-/
namespace ShardKv

open List Nat

structure KvOverflowNode where
  id : String
  replicaId : String
  remoteShard : ℕ

namespace KvOverflowNode

/-- The order of nodes: by replica, then by remote shard, then by name. -/
def before (left right : KvOverflowNode) : Bool :=
  if left.replicaId ≠ right.replicaId then left.replicaId < right.replicaId
  else if left.remoteShard ≠ right.remoteShard then left.remoteShard < right.remoteShard
  else left.id ≤ right.id

def sort (nodes : List KvOverflowNode) : List KvOverflowNode :=
  nodes.insertionSort fun left right => left.before right = true

def hasAdjacentDuplicate : List KvOverflowNode → Bool
  | first :: second :: rest => first.id = second.id || hasAdjacentDuplicate (second :: rest)
  | _ => false

end KvOverflowNode

namespace Placement

open FloorPartition
variable {clusterId key encoded : Bytes} {slot : UInt32} {remoteShard : ℕ}

/-- The ranges of equal replicas, while one of them is being extended. -/
def replicaRangesFrom (start stop : ℕ) (replicaId : String) : List KvOverflowNode → List (ℕ × ℕ)
  | [] => [(start, stop)]
  | node :: rest =>
    if node.replicaId = replicaId then replicaRangesFrom start (stop + 1) replicaId rest
    else (start, stop) :: replicaRangesFrom stop (stop + 1) node.replicaId rest

def replicaRanges : List KvOverflowNode → List (ℕ × ℕ)
  | [] => []
  | node :: rest => replicaRangesFrom 0 1 node.replicaId rest

def indices (range : ℕ × ℕ) : List ℕ := List.range' range.1 (range.2 - range.1)

variable (nodes : List KvOverflowNode)

/-- The nodes a primary shard may use, by their position. -/
def targetsByPrimary (primaryShardCount primaryShard : ℕ) : List ℕ :=
  if primaryShardCount ≤ (replicaRanges nodes).length then
    (chunk (replicaRanges nodes) primaryShardCount primaryShard).flatMap indices
  else if primaryShardCount ≤ nodes.length then
    chunk (List.range nodes.length) primaryShardCount primaryShard
  else [primaryShard % nodes.length]

/-- The owners of the slots of one primary shard. -/
def primaryOwners (targets : List ℕ) (slotsPerPrimary : ℕ) : List ℕ :=
  (List.range slotsPerPrimary).map fun offset =>
    targets.getD (offset * targets.length / slotsPerPrimary) 0

/-- No target, or more targets than slots. -/
def unplaceable (targets : List ℕ) (slotsPerPrimary : ℕ) : Bool :=
  targets.isEmpty || slotsPerPrimary < targets.length

def shardOwnedSlotTable (slotCount primaryShardCount : ℕ)
    (strictTargets : Bool) : Except String (List ℕ) :=
  let nodeCount := nodes.length
  let slotsPerPrimary := slotCount / primaryShardCount
  let targets := targetsByPrimary nodes primaryShardCount
  if strictTargets ∧ nodeCount < primaryShardCount then
    .error s!"kv overflow has {nodeCount} remote shard targets for {primaryShardCount} primary shards"
  else
    match (List.range primaryShardCount).find? fun primaryShard =>
        unplaceable (targets primaryShard) slotsPerPrimary with
    | some primaryShard =>
      let count := (targets primaryShard).length
      .error
        s!"primary shard {primaryShard} has {count} targets for {slotsPerPrimary} logical slots"
    | none =>
      .ok (((List.range primaryShardCount).flatMap fun primaryShard =>
          primaryOwners (targets primaryShard) slotsPerPrimary) ++
        List.replicate (slotCount - primaryShardCount * slotsPerPrimary) 0)

def previousSlotTable (previousNodes : List KvOverflowNode) (slotCount primaryShardCount : ℕ)
    (strictTargets : Bool) : Except String (List ℕ) :=
  if previousNodes.isEmpty then .ok []
  else shardOwnedSlotTable previousNodes slotCount primaryShardCount strictTargets

structure KvOverflowCluster where
  nodes : List KvOverflowNode
  previousNodes : List KvOverflowNode
  slotCount : ℕ
  primaryShardCount : ℕ
  slotsPerPrimaryShard : ℕ
  slotOwners : List ℕ
  previousSlotOwners : List ℕ
  clusterId : Option Bytes

def maxKvOverflowSlotCount : ℕ := 1048576

def isPowerOfTwo (n : ℕ) : Bool := 2 ^ n.log2 = n

def withTopology (nodes previousNodes : List KvOverflowNode) (slotCount primaryShardCount : ℕ)
    (previousPrimaryShardCount : Option ℕ) (clusterId : Option Bytes) (strictTargets : Bool) :
    Except String KvOverflowCluster :=
  let nodes := KvOverflowNode.sort nodes
  let previousNodes := KvOverflowNode.sort previousNodes
  if nodes.isEmpty then .error "kv overflow cluster requires at least one node"
  else if KvOverflowNode.hasAdjacentDuplicate nodes then
    .error "kv overflow node IDs must be unique"
  else if KvOverflowNode.hasAdjacentDuplicate previousNodes then
    .error "previous kv overflow node IDs must be unique"
  else if slotCount = 0 ∨ !isPowerOfTwo slotCount then
    .error "kv overflow slot count must be a non-zero power of two"
  else if maxKvOverflowSlotCount < slotCount then
    .error s!"kv overflow slot count cannot exceed {maxKvOverflowSlotCount}"
  else if primaryShardCount = 0 ∨ !isPowerOfTwo primaryShardCount then
    .error "kv overflow primary shard count must be a non-zero power of two"
  else if slotCount < primaryShardCount then
    .error "kv overflow slot count must be at least the primary shard count"
  else do
    let slotOwners ← shardOwnedSlotTable nodes slotCount primaryShardCount strictTargets
    let previousSlotOwners ← previousSlotTable previousNodes slotCount
      (previousPrimaryShardCount.getD primaryShardCount) strictTargets
    return { nodes, previousNodes, slotCount, primaryShardCount,
             slotsPerPrimaryShard := slotCount / primaryShardCount, slotOwners,
             previousSlotOwners, clusterId }

namespace KvOverflowCluster

variable (cluster : KvOverflowCluster)

/-- The trailing zeros of a power of two are its logarithm. -/
def slotForHashOnShard (keyHash : ℕ) : ℕ := stripeIndex keyHash (shiftFor cluster.slotCount.log2)

def primaryShardForHash (keyHash : ℕ) : ℕ :=
  stripeIndex keyHash (shiftFor cluster.primaryShardCount.log2)

end KvOverflowCluster

/-- The key under which a node stores an entry; ids and shards that do not fit panic. -/
def encodeOverflowStorageKey (clusterId : Bytes) (slot : UInt32) (remoteShard : ℕ) (key : Bytes) :
    Option Bytes :=
  if clusterId.length < 2 ^ 16 ∧ remoteShard < 2 ^ 32 then
    some (overflowSlotKeyMagic ++ (leBytes 4 remoteShard ++ (leBytes 4 slot.toNat ++
      (leBytes 2 clusterId.length ++ (clusterId ++ key)))))
  else none

theorem flatMap_replicaRangesFrom {start stop : ℕ} (h : start ≤ stop) (replicaId : String) :
    (replicaRangesFrom start stop replicaId nodes).flatMap indices =
      List.range' start (stop - start + nodes.length) := by
  induction nodes generalizing start stop replicaId with
  | nil => simp [replicaRangesFrom, indices]
  | cons node nodes ih =>
    rw [replicaRangesFrom]
    split_ifs
    · rw [ih (by omega), length_cons]
      congr 1
      omega
    · -- The range is complete, and the next one starts where it stops.
      have hnext : indices (start, stop) ++ List.range' stop (stop + 1 - stop + nodes.length) =
            List.range' start (stop - start + (stop + 1 - stop + nodes.length)) := by
        have happend := @range'_append start (stop - start) (stop + 1 - stop + nodes.length) 1
        rwa [one_mul, Nat.add_sub_cancel' h] at happend
      rw [flatMap_cons, ih (le_succ stop), hnext, length_cons]
      congr 1
      omega

/-- The ranges are the positions of all nodes, in order. -/
theorem flatMap_replicaRanges :
    (replicaRanges nodes).flatMap indices = List.range nodes.length := by
  cases nodes with
  | nil => rfl
  | cons node nodes =>
    rw [replicaRanges, flatMap_replicaRangesFrom nodes (zero_le 1), range_eq_range',
      length_cons]
    congr 1
    omega

section Targets

variable {nodes : List KvOverflowNode} {primaryShardCount : ℕ}

theorem targetsByPrimary_lt (hnodes : nodes ≠ []) {primaryShard target : ℕ}
    (h : target ∈ targetsByPrimary nodes primaryShardCount primaryShard) :
    target < nodes.length := by
  rw [targetsByPrimary] at h
  split_ifs at h
  · obtain ⟨range, hrange, htarget⟩ := mem_flatMap.mp h
    have hall := mem_flatMap.mpr ⟨range, (chunk_sublist _ _ _).subset hrange, htarget⟩
    rwa [flatMap_replicaRanges, mem_range] at hall
  · exact mem_range.mp ((chunk_sublist _ _ _).subset h)
  · rw [mem_singleton.mp h]
    exact mod_lt _ (length_pos_iff.mpr hnodes)

variable (nodes) in
theorem nodup_targetsByPrimary (primaryShardCount primaryShard : ℕ) :
    (targetsByPrimary nodes primaryShardCount primaryShard).Nodup := by
  rw [targetsByPrimary]
  split_ifs
  · have hall : ((replicaRanges nodes).flatMap indices).Nodup := by
      rw [flatMap_replicaRanges]
      exact nodup_range
    exact hall.sublist ((chunk_sublist _ _ _).flatMap indices)
  · exact nodup_range.sublist (chunk_sublist _ _ _)
  · exact nodup_singleton _

/-- With at least as many nodes as primary shards, no two of these share a target. -/
theorem disjoint_targetsByPrimary (h : primaryShardCount ≤ nodes.length) {primaryShard later : ℕ}
    (hlt : primaryShard < later) :
    (targetsByPrimary nodes primaryShardCount primaryShard).Disjoint
      (targetsByPrimary nodes primaryShardCount later) := by
  unfold targetsByPrimary
  split_ifs
  · refine disjoint_chunk _ ?_ hlt
    rw [flatMap_replicaRanges]
    exact nodup_range
  · have hsingle : ((List.range nodes.length).flatMap fun node => [node]).Nodup := by
      rw [flatMap_singleton']
      exact nodup_range
    simpa only [flatMap_singleton'] using disjoint_chunk primaryShardCount hsingle hlt

end Targets

section Owners

variable {targets : List ℕ} {slotsPerPrimary : ℕ} {offset : ℕ}

theorem owner_mem (hne : targets ≠ []) (h : offset < slotsPerPrimary) :
    targets.getD (label slotsPerPrimary targets.length offset) 0 ∈ targets := by
  have hlt := label_lt (length_pos_iff.mpr hne) h
  rw [getD_eq_getElem _ _ hlt]
  exact getElem_mem hlt

/-- A target owns the slots of its label. -/
theorem owner_eq_iff (hnodup : targets.Nodup) {part : ℕ} (hpart : part < targets.length)
    (h : offset < slotsPerPrimary) :
    targets.getD (label slotsPerPrimary targets.length offset) 0 = targets.get ⟨part, hpart⟩ ↔
      label slotsPerPrimary targets.length offset = part := by
  have hlt := label_lt (zero_lt_of_lt hpart) h
  rw [getD_eq_getElem _ _ hlt]
  exact hnodup.getElem_inj_iff

end Owners

/-- Lists of one length, put together, are found at multiples of it. -/
theorem getElem_flatMap_range {f : ℕ → List ℕ} {size : ℕ} (hsize : ∀ i, (f i).length = size)
    {count i offset : ℕ} (hi : i < count) (hoffset : offset < size) (rest : List ℕ) :
    (((List.range count).flatMap f) ++ rest)[i * size + offset]? = (f i)[offset]? := by
  induction count generalizing rest with
  | zero => exact absurd hi (not_lt_zero i)
  | succ count ih =>
    have hlen : ((List.range count).flatMap f).length = count * size := by
      rw [length_flatMap]
      simp [hsize]
    rw [range_succ, flatMap_append, append_assoc]
    rcases Nat.lt_succ_iff_lt_or_eq.mp hi with hlt | rfl
    · exact ih hlt _
    · rw [List.getElem?_append_right (by omega), hlen, Nat.add_sub_cancel_left,
        flatMap_singleton, List.getElem?_append_left (by rw [hsize]; exact hoffset)]

theorem stripeIndex_div {slotBits shardBits : ℕ} (hle : shardBits ≤ slotBits)
    (hbits : slotBits ≤ usizeBits) (hash : ℕ) :
    stripeIndex hash (shiftFor slotBits) / 2 ^ (slotBits - shardBits) =
      stripeIndex hash (shiftFor shardBits) := by
  have hsum : usizeBits - slotBits + (slotBits - shardBits) = usizeBits - shardBits := by omega
  rw [stripeIndex_shiftFor, stripeIndex_shiftFor, Nat.div_div_eq_div_mul, ← pow_add, hsum]

/-- The slots of a primary shard that a node owns. -/
def KvOverflowCluster.ownedSlots (cluster : KvOverflowCluster) (primaryShard target : ℕ) : ℕ :=
  (List.range cluster.slotsPerPrimaryShard).countP fun offset =>
    cluster.slotOwners[primaryShard * cluster.slotsPerPrimaryShard + offset]? = some target

/-- What placement is for: slots are those of the primary shard of their hashes, each has an owner,
and the targets of a primary shard share its slots evenly and, if possible, with no other. -/
structure WellPlaced (cluster : KvOverflowCluster) : Prop where
  slot_mem : ∀ hash, cluster.primaryShardForHash hash < cluster.primaryShardCount ∧
    cluster.primaryShardForHash hash * cluster.slotsPerPrimaryShard ≤
      cluster.slotForHashOnShard hash ∧
    cluster.slotForHashOnShard hash <
      (cluster.primaryShardForHash hash + 1) * cluster.slotsPerPrimaryShard
  owner_lt : ∀ slot < cluster.slotCount,
    ∃ owner, cluster.slotOwners[slot]? = some owner ∧ owner < cluster.nodes.length
  owned_pos : ∀ primaryShard < cluster.primaryShardCount,
    ∀ target ∈ targetsByPrimary cluster.nodes cluster.primaryShardCount primaryShard,
      1 ≤ cluster.ownedSlots primaryShard target
  owned_balanced : ∀ primaryShard < cluster.primaryShardCount,
    ∀ target ∈ targetsByPrimary cluster.nodes cluster.primaryShardCount primaryShard,
    ∀ other ∈ targetsByPrimary cluster.nodes cluster.primaryShardCount primaryShard,
      cluster.ownedSlots primaryShard target ≤ cluster.ownedSlots primaryShard other + 1
  targets_disjoint : cluster.primaryShardCount ≤ cluster.nodes.length →
    ∀ primaryShard < cluster.primaryShardCount, ∀ other < cluster.primaryShardCount,
      primaryShard ≠ other →
      (targetsByPrimary cluster.nodes cluster.primaryShardCount primaryShard).Disjoint
        (targetsByPrimary cluster.nodes cluster.primaryShardCount other)

/-- What the builder has checked. -/
structure Accepted (cluster : KvOverflowCluster) : Prop where
  nodes_ne : cluster.nodes ≠ []
  slotCount_pow : 2 ^ cluster.slotCount.log2 = cluster.slotCount
  slotCount_le : cluster.slotCount ≤ maxKvOverflowSlotCount
  primaryShardCount_pos : 0 < cluster.primaryShardCount
  primaryShardCount_pow : 2 ^ cluster.primaryShardCount.log2 = cluster.primaryShardCount
  primaryShardCount_le : cluster.primaryShardCount ≤ cluster.slotCount
  slotsPerPrimaryShard_eq :
    cluster.slotsPerPrimaryShard = cluster.slotCount / cluster.primaryShardCount
  table : ∃ strictTargets, shardOwnedSlotTable cluster.nodes cluster.slotCount
    cluster.primaryShardCount strictTargets = .ok cluster.slotOwners

theorem accepted_of_withTopology {nodes previousNodes : List KvOverflowNode}
    {slotCount primaryShardCount : ℕ} {previousPrimaryShardCount : Option ℕ}
    {clusterId : Option Bytes} {strictTargets : Bool} {cluster : KvOverflowCluster}
    (h : withTopology nodes previousNodes slotCount primaryShardCount previousPrimaryShardCount
      clusterId strictTargets = .ok cluster) : Accepted cluster := by
  simp only [withTopology] at h
  split_ifs at h with hnodes _ _ hslots hmax hshards hle
  obtain ⟨slotOwners, htable, h⟩ := Except.bind_eq_ok.mp h
  obtain ⟨previousSlotOwners, -, h⟩ := Except.bind_eq_ok.mp h
  cases h
  rw [not_or, Bool.not_eq_true', Bool.not_eq_false, isPowerOfTwo, decide_eq_true_eq] at hslots hshards
  exact { nodes_ne := by simpa using hnodes
          slotCount_pow := hslots.2
          slotCount_le := not_lt.mp hmax
          primaryShardCount_pos := pos_of_ne_zero hshards.1
          primaryShardCount_pow := hshards.2
          primaryShardCount_le := not_lt.mp hle
          slotsPerPrimaryShard_eq := rfl
          table := ⟨strictTargets, htable⟩ }

namespace Accepted

variable {cluster : KvOverflowCluster} (h : Accepted cluster)

include h

theorem log2_le : cluster.primaryShardCount.log2 ≤ cluster.slotCount.log2 := by
  have hle := h.primaryShardCount_le
  rw [← h.slotCount_pow, ← h.primaryShardCount_pow] at hle
  exact (Nat.pow_le_pow_iff_right (by decide)).mp hle

theorem slotsPerPrimaryShard_pow : cluster.slotsPerPrimaryShard =
    2 ^ (cluster.slotCount.log2 - cluster.primaryShardCount.log2) := by
  rw [h.slotsPerPrimaryShard_eq, ← h.slotCount_pow, ← h.primaryShardCount_pow,
    Nat.pow_div h.log2_le (by decide), Nat.log2_two_pow, Nat.log2_two_pow]

theorem slotsPerPrimaryShard_pos : 0 < cluster.slotsPerPrimaryShard := by
  rw [h.slotsPerPrimaryShard_pow]
  exact Nat.two_pow_pos _

theorem slotCount_eq :
    cluster.slotCount = cluster.primaryShardCount * cluster.slotsPerPrimaryShard := by
  rw [h.slotsPerPrimaryShard_pow, ← h.primaryShardCount_pow, Nat.log2_two_pow, ← pow_add,
    Nat.add_sub_cancel' h.log2_le, h.slotCount_pow]

theorem slotBits_le : cluster.slotCount.log2 ≤ usizeBits := by
  have hle : 2 ^ cluster.slotCount.log2 ≤ 2 ^ 20 := h.slotCount_pow.le.trans h.slotCount_le
  have hbits := (Nat.pow_le_pow_iff_right (by decide)).mp hle
  exact hbits.trans (by decide)

/-- The targets of every primary shard passed their check, and the table is made of them. -/
theorem slotOwners_eq : (∀ primaryShard < cluster.primaryShardCount,
      targetsByPrimary cluster.nodes cluster.primaryShardCount primaryShard ≠ [] ∧
      (targetsByPrimary cluster.nodes cluster.primaryShardCount primaryShard).length ≤
        cluster.slotsPerPrimaryShard) ∧
    ∃ rest, cluster.slotOwners = ((List.range cluster.primaryShardCount).flatMap fun primaryShard =>
        primaryOwners (targetsByPrimary cluster.nodes cluster.primaryShardCount primaryShard)
          cluster.slotsPerPrimaryShard) ++ rest := by
  obtain ⟨strictTargets, htable⟩ := h.table
  simp only [shardOwnedSlotTable, ← h.slotsPerPrimaryShard_eq] at htable
  split_ifs at htable
  split at htable
  · cases htable
  · next hnone =>
    rw [List.find?_eq_none] at hnone
    refine ⟨fun primaryShard hlt => ?_, ?_⟩
    · have hplaceable := hnone primaryShard (mem_range.mpr hlt)
      simpa [unplaceable] using hplaceable
    · exact ⟨_, (Except.ok.inj htable).symm⟩

section Targets

variable {primaryShard : ℕ} {targets : List ℕ}
  (htargets : targetsByPrimary cluster.nodes cluster.primaryShardCount primaryShard = targets)
  (hshard : primaryShard < cluster.primaryShardCount)
include htargets hshard

/-- The owner of a slot of a primary shard. -/
theorem slotOwner {offset : ℕ} (hoffset : offset < cluster.slotsPerPrimaryShard) :
    cluster.slotOwners[primaryShard * cluster.slotsPerPrimaryShard + offset]? =
      some (targets.getD (label cluster.slotsPerPrimaryShard targets.length offset) 0) := by
  obtain ⟨-, rest, howners⟩ := h.slotOwners_eq
  have hlength : ∀ i, (primaryOwners (targetsByPrimary cluster.nodes cluster.primaryShardCount i)
      cluster.slotsPerPrimaryShard).length = cluster.slotsPerPrimaryShard := by
    simp [primaryOwners]
  rw [howners, getElem_flatMap_range hlength hshard hoffset, htargets, primaryOwners,
    List.getElem?_map, List.getElem?_range hoffset]
  rfl

/-- A target owns as many slots as the quotient, or one more. -/
theorem ownedSlots_bounds {target : ℕ} (htarget : target ∈ targets) :
    cluster.slotsPerPrimaryShard / targets.length ≤ cluster.ownedSlots primaryShard target ∧
    cluster.ownedSlots primaryShard target ≤ cluster.slotsPerPrimaryShard / targets.length + 1 := by
  obtain ⟨⟨part, hpart⟩, rfl⟩ := get_of_mem htarget
  have hcount : cluster.ownedSlots primaryShard (targets.get ⟨part, hpart⟩) =
      (List.range cluster.slotsPerPrimaryShard).countP
        (label cluster.slotsPerPrimaryShard targets.length · = part) := by
    refine countP_congr fun offset hoffset => ?_
    rw [mem_range] at hoffset
    rw [decide_eq_true_eq, decide_eq_true_eq, h.slotOwner htargets hshard hoffset, Option.some_inj,
      owner_eq_iff (htargets ▸ nodup_targetsByPrimary _ _ _) hpart hoffset]
  rw [hcount]
  exact count_label h.slotsPerPrimaryShard_pos hpart

end Targets

theorem wellPlaced : WellPlaced cluster where
  slot_mem hash := by
    have hdiv : cluster.slotForHashOnShard hash / cluster.slotsPerPrimaryShard =
        cluster.primaryShardForHash hash := by
      rw [h.slotsPerPrimaryShard_pow]
      exact stripeIndex_div h.log2_le h.slotBits_le hash
    have hlt := stripeIndex_lt hash cluster.primaryShardCount.log2
    rw [h.primaryShardCount_pow] at hlt
    refine ⟨hlt, ?_, ?_⟩
    · rw [← hdiv]
      exact div_mul_le_self _ _
    · rw [← hdiv, mul_comm]
      exact lt_mul_div_succ _ h.slotsPerPrimaryShard_pos
  owner_lt slot hslot := by
    have hpos := h.slotsPerPrimaryShard_pos
    have hshard : slot / cluster.slotsPerPrimaryShard < cluster.primaryShardCount := by
      rw [div_lt_iff_lt_mul hpos, ← h.slotCount_eq]
      exact hslot
    have howner := h.slotOwner rfl hshard (mod_lt slot hpos)
    rw [div_add_mod'] at howner
    refine ⟨_, howner, targetsByPrimary_lt h.nodes_ne (owner_mem ?_ (mod_lt slot hpos))⟩
    exact (h.slotOwners_eq.1 _ hshard).1
  owned_pos primaryShard hshard target htarget := by
    have hle := (h.slotOwners_eq.1 primaryShard hshard).2
    have hpos := div_pos hle (length_pos_of_mem htarget)
    exact le_trans hpos (h.ownedSlots_bounds rfl hshard htarget).1
  owned_balanced primaryShard hshard target htarget other hother :=
    (h.ownedSlots_bounds rfl hshard htarget).2.trans
      (Nat.add_le_add_right (h.ownedSlots_bounds rfl hshard hother).1 1)
  targets_disjoint hnodes primaryShard _ other _ hne := by
    rcases lt_or_gt_of_ne hne with hlt | hlt
    · exact disjoint_targetsByPrimary hnodes hlt
    · exact (disjoint_targetsByPrimary hnodes hlt).symm

end Accepted

theorem leBytes_inj {width n m : ℕ} (hn : n < 256 ^ width) (hm : m < 256 ^ width)
    (h : leBytes width n = leBytes width m) : n = m := by
  have hvalue := congrArg leValue h
  rwa [leValue_leBytes_of_lt hn, leValue_leBytes_of_lt hm] at hvalue

section

variable (h : encodeOverflowStorageKey clusterId slot remoteShard key = some encoded)
include h

theorem encodeOverflowStorageKey_eq_some : (clusterId.length < 2 ^ 16 ∧ remoteShard < 2 ^ 32) ∧
      encoded = overflowSlotKeyMagic ++ (leBytes 4 remoteShard ++ (leBytes 4 slot.toNat ++
        (leBytes 2 clusterId.length ++ (clusterId ++ key)))) := by
  rw [encodeOverflowStorageKey] at h
  split_ifs at h with hfits
  exact ⟨hfits, (Option.some.inj h).symm⟩

/-- A storage key says what it was made of. -/
theorem encodeOverflowStorageKey_inj {clusterId' : Bytes} {slot' : UInt32} {remoteShard' : ℕ}
    {key' : Bytes}
    (h' : encodeOverflowStorageKey clusterId' slot' remoteShard' key' = some encoded) :
    clusterId = clusterId' ∧ slot = slot' ∧ remoteShard = remoteShard' ∧ key = key' := by
  obtain ⟨⟨hcluster, hremote⟩, rfl⟩ := encodeOverflowStorageKey_eq_some h
  obtain ⟨⟨hcluster', hremote'⟩, heq⟩ := encodeOverflowStorageKey_eq_some h'
  -- The fields have fixed widths, up to the cluster whose length is one of them.
  have hfields := append_cancel_left heq
  obtain ⟨hremoteField, hfields⟩ := append_inj hfields (by simp)
  obtain ⟨hslotField, hfields⟩ := append_inj hfields (by simp)
  obtain ⟨hlenField, hfields⟩ := append_inj hfields (by simp)
  have hlen := leBytes_inj hcluster hcluster' hlenField
  obtain ⟨rfl, rfl⟩ := append_inj hfields hlen
  have hslot := leBytes_inj slot.toNat_lt slot'.toNat_lt hslotField
  exact ⟨rfl, UInt32.toNat_inj.mp hslot, leBytes_inj hremote hremote' hremoteField, rfl⟩

/-- Overflow-slot routing follows the shard in the storage key, if the node has it. -/
theorem overflowSlotShard_encode {shardBits : ℕ}
    (hbits : shardBits ≤ usizeBits) (hshard : remoteShard < 2 ^ shardBits) :
    overflowSlotShard encoded (shiftFor shardBits) = some remoteShard := by
  obtain ⟨⟨-, hremote⟩, rfl⟩ := encodeOverflowStorageKey_eq_some h
  have hfield : ((overflowSlotKeyMagic ++ (leBytes 4 remoteShard ++ (leBytes 4 slot.toNat ++
      (leBytes 2 clusterId.length ++ (clusterId ++ key))))).drop 8).take 4 =
        leBytes 4 remoteShard := by
    rw [drop_left' (show overflowSlotKeyMagic.length = 8 from rfl),
      take_left' (length_leBytes 4 remoteShard)]
  have hcount : (if shiftFor shardBits = usizeBits then 1
      else 2 ^ (usizeBits - shiftFor shardBits)) = 2 ^ shardBits := by
    rw [shiftFor]
    split_ifs with hone
    · rw [show shardBits = 0 by rw [usizeBits] at *; omega, pow_zero]
    · rw [Nat.sub_sub_self hbits]
  have hvalue : leValue (leBytes 4 remoteShard) = remoteShard := leValue_leBytes_of_lt hremote
  rw [overflowSlotShard, if_neg (by simp [overflowSlotKeyMagic]; omega)]
  simp only [hfield, hvalue, hcount, if_pos hshard]

end

/-- Overflow placement is well formed, and storage keys are told apart and routed by what they
are made of. -/
theorem placement_contract :
    (∀ (nodes previousNodes : List KvOverflowNode) (slotCount primaryShardCount : ℕ)
        (previousPrimaryShardCount : Option ℕ) (clusterId : Option Bytes) (strictTargets : Bool)
        (cluster : KvOverflowCluster),
      withTopology nodes previousNodes slotCount primaryShardCount previousPrimaryShardCount
        clusterId strictTargets = .ok cluster → WellPlaced cluster) ∧
    (∀ (clusterId clusterId' : Bytes) (slot slot' : UInt32) (remoteShard remoteShard' : ℕ)
        (key key' encoded : Bytes),
      encodeOverflowStorageKey clusterId slot remoteShard key = some encoded →
      encodeOverflowStorageKey clusterId' slot' remoteShard' key' = some encoded →
      clusterId = clusterId' ∧ slot = slot' ∧ remoteShard = remoteShard' ∧ key = key') ∧
    ∀ (hashKey : Bytes → ℕ) (clusterId : Bytes) (slot : UInt32) (remoteShard shardBits : ℕ)
        (key encoded : Bytes),
      encodeOverflowStorageKey clusterId slot remoteShard key = some encoded →
      shardBits ≤ usizeBits → remoteShard < 2 ^ shardBits →
      (computeKeyRoute hashKey .overflowSlot (shiftFor shardBits) encoded).shardId =
        remoteShard := by
  refine ⟨fun _ _ _ _ _ _ _ cluster h => (accepted_of_withTopology h).wellPlaced,
    fun _ _ _ _ _ _ _ _ _ h h' => encodeOverflowStorageKey_inj h h', ?_⟩
  intro hashKey clusterId slot remoteShard shardBits key encoded h hbits hshard
  rw [computeKeyRoute]
  simp only [overflowSlotShard_encode h hbits hshard]

/-- Two replicas of two shards each for two primary shards, and a key for one of them. -/
theorem placement_contract_twoReplicas :
    (∀ cluster, withTopology [⟨"a0", "a", 0⟩, ⟨"a1", "a", 1⟩, ⟨"b0", "b", 0⟩, ⟨"b1", "b", 1⟩] [] 16 2
        none none false = .ok cluster → WellPlaced cluster) ∧
      (∃ cluster, withTopology [⟨"a0", "a", 0⟩, ⟨"a1", "a", 1⟩, ⟨"b0", "b", 0⟩, ⟨"b1", "b", 1⟩] [] 16
        2 none none false = .ok cluster) ∧
      (computeKeyRoute (fun _ => 0) .overflowSlot (shiftFor 1)
        ([83, 67, 75, 86, 75, 69, 89, 49] ++ [1, 0, 0, 0, 3, 0, 0, 0, 1, 0, 99, 107])).shardId = 1 :=
  ⟨placement_contract.1 _ _ _ _ _ _ _, ⟨_, rfl⟩,
    placement_contract.2.2 (fun _ => 0) [99] 3 1 1 [107] _ rfl (by decide) (by decide)⟩

end Placement
end ShardKv
