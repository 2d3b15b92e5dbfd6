import ShardKv.Objects.BucketEdits

/-!
# Maps, slabs and deadlines of a bucket

Each of the four maps of a bucket belongs to its slab from the start, and every operation
goes through both. Along a history of operations the four maps stay apart, a deadline
belongs to a stored key, and a new slot is only taken for a key that has none.
-/
namespace ShardKv

variable {β σ : Type} [LinearOrder β] [LinearOrder σ]

namespace RedisObjectBucket

open SlotTable
variable {b b' : RedisObjectBucket β σ} {key : β}

/-- A key is in one map at most; a map and its slab have a key for every occupied place and a free
list of the vacant ones; a deadline belongs to a stored key. -/
structure Integrity (b : RedisObjectBucket β σ) : Prop where
  exclusive : ∀ key kind kind' slot slot', (b.slots kind).map.lookup key = some slot →
    (b.slots kind').map.lookup key = some slot' → kind = kind'
  indexed : ∀ kind, (b.slots kind).slab.Indexed fun key => (b.slots kind).map.lookup key
  dated : ∀ key, (b.expireAtMs.lookup key).isSome = true → b.containsObject key = true

theorem WellFormed.integrity (hb : b.WellFormed) : b.Integrity where
  exclusive key kind kind' slot slot' hslot hslot' := by
    apply hb.exclusive key kind kind'
    · rw [holds, SlabMap.isSome_lookup, hslot]
      rfl
    · rw [holds, SlabMap.isSome_lookup, hslot']
      rfl
  indexed kind := (b.slots kind).indexed
  dated := hb.dated

theorem history_sound (arith : ScoreArithmetic β σ) (ops : List (BucketOp β σ)) :
    ∀ {b : RedisObjectBucket β σ}, Sound b → Sound (ops.foldl (·.run arith) b) := by
  induction ops with
  | nil => exact id
  | cons op ops ih =>
    intro b hb
    exact ih (run_sound hb op)

/-- A write attempt reports a missing object only for a key that has none of any kind. -/
theorem editExisting_missing {kind : ObjectKind}
    {edit : Contents β σ kind → RedisObjectResult β × Contents β σ kind}
    (h : b.editExisting key kind edit = .missing b') : b'.containsObject key = false := by
  unfold editExisting at h
  split at h
  · cases h
  next hnone =>
    split_ifs at h with hnon
    cases h
    exact not_containsObject hnone (Bool.eq_false_of_not_eq_true hnon)

theorem hsetExisting_missing {field value : β} {nowMs : ℕ}
    (h : b.hsetExistingOrWrongtypeHashed key field value nowMs = .missing b') :
    b'.containsObject key = false := by
  unfold hsetExistingOrWrongtypeHashed at h
  dsimp only at h
  split at h
  · cases h
  next hnone =>
    split_ifs at h with hnon
    cases h
    exact not_containsObject hnone (Bool.eq_false_of_not_eq_true hnon)

/-- After every history the maps, slabs, free lists and deadlines of a bucket belong together, and
the writes that fill a slot without looking at the map meet a key without one: those after
`deleteAny` and after an attempt that found the object missing. -/
theorem bucket_integrity (arith : ScoreArithmetic β σ) (ops : List (BucketOp β σ)) :
    let b := ops.foldl (·.run arith) ({} : RedisObjectBucket β σ)
    b.Integrity ∧ ∀ key b',
      (b.deleteAny key).2.containsObject key = false ∧
      (∀ kind edit, b.editExisting key kind edit = .missing b' → b'.containsObject key = false) ∧
      ∀ field value nowMs, b.hsetExistingOrWrongtypeHashed key field value nowMs = .missing b' →
        b'.containsObject key = false := by
  intro b
  have hb : b.WellFormed := (history_sound arith ops sound_empty).wellFormed
  refine ⟨hb.integrity, fun key b' => ⟨?_, fun _ _ => editExisting_missing,
    fun _ _ _ => hsetExisting_missing⟩⟩
  rw [containsObject_eq_false]
  exact fun kind => not_holds_of_lookup (lookup_deleteAny hb key kind)

/-- The slot of a deleted key is taken again. -/
example : let arith : ScoreArithmetic ℕ ℕ :=
      ⟨0, (· + ·), fun _ => true, fun a b => a ≤ b, fun n => some n, Int.toNat, some, id⟩
    let ops : List (BucketOp ℕ ℕ) := [.hset 1 0 0 0, .hset 2 0 0 0, .deleteAny 1,
      .write 1 (.zincrby 5 6) 0 0, .hset 3 0 0 0, .deleteAny 2]
    let b := ops.foldl (·.run arith) ({} : RedisObjectBucket ℕ ℕ)
    (b.slots .hash).map.lookup 3 = some 0 ∧ (b.slots .hash).slab.free = [1] ∧
      (b.slots .zset).map.lookup 1 = some 0 := by
  decide +kernel

end RedisObjectBucket
end ShardKv
