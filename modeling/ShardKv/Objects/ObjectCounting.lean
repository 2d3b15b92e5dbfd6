import ShardKv.Objects.SetexReports

/-!
# The counter of a shard

A store is counted when every bucket is well formed and every shard counts the
slots of its buckets. All access goes through one bucket at a time: a commit
replaces that bucket and moves the counter, and the store stays counted exactly
when the counter moves by the slots gained or lost.
-/
namespace ShardKv

open Function
variable {ι β σ : Type} [DecidableEq ι] [LinearOrder β] [LinearOrder σ]

namespace RedisObjectStore

variable {store store' : RedisObjectStore ι β σ} {route : EmbeddedKeyRoute ι} {key : β}

open RedisObjectBucket

/-- Every shard counts the slots of its buckets, and every bucket is well formed. -/
structure Counted (store : RedisObjectStore ι β σ) : Prop where
  count : ∀ shardId, (store.shards shardId).objectCount = store.storedKeys shardId
  wellFormed : ∀ shardId i, ((store.shards shardId).buckets i).WellFormed

omit [DecidableEq ι] in
theorem counted_empty : ({} : RedisObjectStore ι β σ).Counted where
  count shardId := by simp [storedKeys]
  wellFormed _ _ := wellFormed_empty

/-- One bucket is replaced and the counter of its shard moves; nothing else changes. -/
structure Commits (store : RedisObjectStore ι β σ) (route : EmbeddedKeyRoute ι)
    (b : RedisObjectBucket β σ) (moved : ℤ) (store' : RedisObjectStore ι β σ) : Prop where
  others : ∀ shardId, shardId ≠ route.shardId → store'.shards shardId = store.shards shardId
  buckets : (store'.shards route.shardId).buckets =
    Function.update (store.shards route.shardId).buckets (bucketIndex route.keyHash) b
  count : (store'.shards route.shardId).objectCount =
    (store.shards route.shardId).objectCount + moved

namespace Commits

variable {b : RedisObjectBucket β σ} {moved : ℤ}

variable (store route b) in
theorem putBucket : Commits store route b 0 (store.putBucket route b) where
  others shardId h := update_of_ne h _ _
  buckets := by simp [RedisObjectStore.putBucket]
  count := by simp [RedisObjectStore.putBucket]

theorem noteCreated (h : Commits store route b moved store') :
    Commits store route b (moved + 1) (store'.noteCreated route.shardId) where
  others shardId hne := (update_of_ne hne _ _).trans (h.others shardId hne)
  buckets := by simpa [RedisObjectStore.noteCreated] using h.buckets
  count := by
    simp only [RedisObjectStore.noteCreated, update_self, h.count]
    ring

theorem noteDeleted (h : Commits store route b moved store') :
    Commits store route b (moved - 1) (store'.noteDeleted route.shardId) where
  others shardId hne := (update_of_ne hne _ _).trans (h.others shardId hne)
  buckets := by simpa [RedisObjectStore.noteDeleted] using h.buckets
  count := by
    simp only [RedisObjectStore.noteDeleted, update_self, h.count]
    ring

omit [DecidableEq ι] in
theorem bucketAt (h : Commits store route b moved store') : store'.bucketAt route = b := by
  rw [RedisObjectStore.bucketAt, h.buckets, update_self]

omit [DecidableEq ι] in
theorem storedKeys (h : Commits store route b moved store') :
    (store'.storedKeys route.shardId : ℤ) =
      store.storedKeys route.shardId + (b.slots.size - (store.bucketAt route).slots.size) := by
  have hrest : ∑ i ∈ {bucketIndex route.keyHash}ᶜ,
        ((store'.shards route.shardId).buckets i).slots.size =
      ∑ i ∈ {bucketIndex route.keyHash}ᶜ, ((store.shards route.shardId).buckets i).slots.size := by
    apply Finset.sum_congr rfl
    intro i hi
    rw [h.buckets, update_of_ne (by simpa using hi)]
  have hnew : ((store'.shards route.shardId).buckets (bucketIndex route.keyHash)) = b := h.bucketAt
  unfold RedisObjectStore.storedKeys RedisObjectStore.bucketAt
  rw [Fintype.sum_eq_add_sum_compl (bucketIndex route.keyHash),
    Fintype.sum_eq_add_sum_compl (bucketIndex route.keyHash) (fun i =>
      ((store.shards route.shardId).buckets i).slots.size), hrest, hnew]
  push_cast
  ring

omit [DecidableEq ι] in
section

variable (h : Commits store route b moved store') (hstore : store.Counted)
include h hstore

/-- The counter of the shard is right after a commit exactly when it moved with the slots. -/
theorem count_iff : (store'.shards route.shardId).objectCount = store'.storedKeys route.shardId ↔
      (b.slots.size : ℤ) = (store.bucketAt route).slots.size + moved := by
  rw [h.count, h.storedKeys, hstore.count]
  constructor <;> intro heq <;> linarith

theorem counted (hb : b.WellFormed)
    (hsize : (b.slots.size : ℤ) = (store.bucketAt route).slots.size + moved) :
    store'.Counted where
  count shardId := by
    by_cases hshard : shardId = route.shardId
    · subst hshard
      exact (h.count_iff hstore).mpr hsize
    · rw [RedisObjectStore.storedKeys, h.others shardId hshard]
      exact hstore.count shardId
  wellFormed shardId i := by
    by_cases hshard : shardId = route.shardId
    · subst hshard
      rw [h.buckets]
      by_cases hi : i = bucketIndex route.keyHash
      · subst hi
        rw [update_self]
        exact hb
      · rw [update_of_ne hi]
        exact hstore.wellFormed _ i
    · rw [h.others shardId hshard]
      exact hstore.wellFormed shardId i

end
end Commits

theorem countRemoval_commits (store : RedisObjectStore ι β σ) (route : EmbeddedKeyRoute ι)
    (remove : RedisObjectBucket β σ → Bool × RedisObjectBucket β σ) :
    Commits store route (remove (store.bucketAt route)).2
      (-(remove (store.bucketAt route)).1.toNat) (store.countRemoval route remove).2 := by
  unfold countRemoval
  obtain ⟨removed, b⟩ := remove (store.bucketAt route)
  cases removed with
  | true => simpa using (Commits.putBucket store route b).noteDeleted
  | false => simpa using Commits.putBucket store route b

/-- The caller's reading of the flag moves the counter by `notedChange`. -/
theorem objectWriteRouted_commits (env : ObjectSurroundings β) (nowMs : ℕ)
    (op : RedisObjectBucket β σ → BucketWrite β σ)
    (hpurged : (store.countRemoval route fun b => b.purgeForWrite key nowMs).2 = store')
    (hfree : (!(store'.bucketAt route).containsObject key && env.stringExists key) = false) :
    Commits store' route (op (store'.bucketAt route)).bucket
      (notedChange ((store'.bucketAt route).containsObject key)
        (op (store'.bucketAt route)).changed)
      (store.objectWriteRouted env route key nowMs op).2 := by
  have hput := Commits.putBucket store' route (op (store'.bucketAt route)).bucket
  unfold objectWriteRouted
  simp only [hpurged, hfree, Bool.false_eq_true, if_false]
  cases (store'.bucketAt route).containsObject key <;>
    cases (op (store'.bucketAt route)).changed
  · exact hput
  · exact hput.noteCreated
  · exact hput
  · exact hput.noteDeleted

end RedisObjectStore
end ShardKv
