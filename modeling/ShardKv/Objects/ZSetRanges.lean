import ShardKv.Objects.ZSetObservers

/-!
# The two paths of `ZRANGE`

The frame path copies the entries and cuts the range out, the visitor walks the
object. Each has a normaliser of its own for the index arguments: one clamps a stop
before the first position to it, the other finds an empty range there.
-/
namespace ShardKv

universe u

/-- A sorted-set object with the list it stands for. -/
structure SortedSet {σ μ : Type u} [LinearOrder σ] [LinearOrder μ]
    (T : OrderedIndex (ZSetOrderKey σ μ)) where
  object : ZSetObject T
  list : ScoreList σ μ
  refines : object.Refines list

/-- The normaliser of the frame path. -/
def normalizeRedisRange (len : ℕ) (start stop : ℤ) : Option (ℕ × ℕ) :=
  if len = 0 then none
  else
    let start := max 0 (min (if start < 0 then (len : ℤ) + start else start) len)
    let stop := max 0 (min (if stop < 0 then (len : ℤ) + stop else stop) (len - 1))
    if start ≤ stop then some (start.toNat, stop.toNat) else none

/-- The entries of the frame that `ZRANGE` returns. -/
def zrangeByRankImpl {α : Type u} (entries : List α) (start stop : ℤ) (rev : Bool) : List α :=
  let entries := if rev then entries.reverse else entries
  match normalizeRedisRange entries.length start stop with
  | none => []
  | some (start, stop) => (entries.drop start).take (stop - start + 1)

/-- The entries that a visit writes after its header. -/
def writtenEntries {σ μ : Type u} (items : List (RedisObjectZSetRangeItem σ μ)) : List (μ × σ) :=
  items.filterMap fun
    | .begin _ => none
    | .entry member score => some (member, score)

/-- Where the two normalisers mean the same positions. -/
def RangesAgree (len : ℕ) (start stop : ℤ) : Prop :=
  len = 0 ∨ 0 < resolveIndex len start ∨ -len ≤ stop

theorem normalizers_agree {len : ℕ} {start stop : ℤ} (h : RangesAgree len start stop) :
    normalizeRedisRange len start stop = normalizeRange start stop len := by
  unfold RangesAgree resolveIndex at h
  rw [normalizeRange_eq]
  simp only [normalizeRedisRange, resolveIndex]
  split_ifs at h ⊢
  all_goals first
    | rfl
    | omega
    | exact congrArg some (Prod.ext (by dsimp only; omega) (by dsimp only; omega))

/-- A stop before the first position is clamped to it on one path only. -/
theorem normalizers_differ {len : ℕ} {start stop : ℤ} (h : ¬ RangesAgree len start stop) :
    len ≠ 0 ∧ normalizeRange start stop len = none ∧
      normalizeRedisRange len start stop = some (0, 0) := by
  unfold RangesAgree resolveIndex at h
  rw [normalizeRange_eq]
  simp only [normalizeRedisRange, resolveIndex]
  split_ifs at h ⊢ <;> first
    | omega
    | exact ⟨by omega, rfl, congrArg some (Prod.ext (by dsimp only; omega) (by dsimp only; omega))⟩

theorem zrangeByRankImpl_eq_slice_iff {α : Type u} (xs : List α) (start stop : ℤ) :
    zrangeByRankImpl xs start stop false = slice xs start stop ↔
      RangesAgree xs.length start stop := by
  unfold zrangeByRankImpl
  rw [if_neg Bool.false_ne_true]
  dsimp only
  constructor
  · intro hsame
    by_contra hdiffer
    obtain ⟨hlen, hnone, hfirst⟩ := normalizers_differ hdiffer
    rcases slice_cases xs start stop with ⟨-, hempty⟩ | ⟨first, last, hsome, -⟩
    · rw [hfirst, hempty] at hsame
      simp_all
    · simp [hnone] at hsome
  · intro hagree
    rw [normalizers_agree hagree]
    rcases slice_cases xs start stop with ⟨hnone, hempty⟩ | ⟨first, last, hsome, -, -, hslice, -⟩
    · rw [hnone, hempty]
    · rw [hsome, hslice]

section Rank

variable {σ μ : Type u} [LinearOrder σ] [LinearOrder μ] {T : OrderedIndex (ZSetOrderKey σ μ)}

theorem zrangeByRankImpl_map {α β : Type u} (f : α → β) (xs : List α) (start stop : ℤ)
    (rev : Bool) : zrangeByRankImpl (xs.map f) start stop rev =
      (zrangeByRankImpl (if rev then xs.reverse else xs) start stop false).map f := by
  have hwalked : (if rev then (xs.map f).reverse else xs.map f) =
      (if rev then xs.reverse else xs).map f := by
    cases rev with
    | false => rfl
    | true => exact (List.map_reverse ..).symm
  simp only [zrangeByRankImpl, hwalked, List.length_map, if_neg Bool.false_ne_true]
  split
  · rfl
  · rw [← List.map_drop, ← List.map_take]

/-- The frame of `ZRANGE` and the reply of its visitor list the same entries, in either
direction, exactly when the set is empty, the start means a position after the first or
the stop none before it. -/
theorem zrange_paths_agree_iff (set : SortedSet T) (start stop : ℤ) (rev : Bool) :
    zrangeByRankImpl set.object.entries start stop rev =
        writtenEntries (set.object.rangeEntriesVisit start stop rev) ↔
      RangesAgree set.object.len start stop := by
  have hlen : (ZSetObject.walkedKeys set.list rev).length = set.object.len := by
    rw [ZSetObject.len_eq set.refines]
    cases rev with
    | false => rfl
    | true => exact List.length_reverse
  have hinjective : Function.Injective (entryOf : ZSetOrderKey σ μ → μ × σ) :=
    Function.LeftInverse.injective orderKey_entryOf
  have hwritten : writtenEntries (set.object.rangeEntriesVisit start stop rev) =
      (slice (ZSetObject.walkedKeys set.list rev) start stop).map entryOf := by
    rw [ZSetObject.rangeEntriesVisit_eq set.refines]
    simp only [writtenEntries, List.filterMap_cons, List.filterMap_map]
    exact congrFun List.filterMap_eq_map' _
  rw [ZSetObject.entries_eq set.refines, hwritten, zrangeByRankImpl_map,
    (List.map_injective_iff.mpr hinjective).eq_iff, ← hlen]
  exact zrangeByRankImpl_eq_slice_iff (ZSetObject.walkedKeys set.list rev) start stop

end Rank

/-- One member, from the first position to one before it: the frame has the member, the
visitor writes nothing. -/
theorem zrange_below_first :
    let object : ZSetObject (sortedListIndex (ZSetOrderKey ℕ ℕ)) := .small [(7, 1)]
    zrangeByRankImpl object.entries 0 (-2) false = [(7, 1)] ∧
      writtenEntries (object.rangeEntriesVisit 0 (-2) false) = [] := by
  decide

end ShardKv
