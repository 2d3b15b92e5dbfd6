import ShardKv.Objects.ObjectPresence

/-!
# What a bucket write reports

A write is read by its caller through one flag. `Reported` says that the flag is
right: measured against whether the key held an object before, it accounts for
the number of stored slots afterwards. Every write of a bucket reports rightly,
with the exception of `hash_field_setex`, which can create a hash and give it up
again within one call.
-/
namespace ShardKv

open SlotTable
variable {β σ : Type} [LinearOrder β] [LinearOrder σ]

/-- The change a caller counts for a flag, given whether there was an object before. -/
def notedChange (hadObject changed : Bool) : ℤ :=
  match hadObject, changed with
  | false, true => 1
  | true, true => -1
  | _, false => 0

namespace RedisObjectBucket

variable {b b' b'' : RedisObjectBucket β σ} {key : β} {kind : ObjectKind} {changed : Bool}

structure Reported (key : β) (b : RedisObjectBucket β σ) (changed : Bool)
    (b' : RedisObjectBucket β σ) : Prop where
  wellFormed : b'.WellFormed
  size : (b'.slots.size : ℤ) = b.slots.size + notedChange (b.containsObject key) changed

namespace Reported

section

variable (hb : b.WellFormed)
include hb

theorem kept (h : Kept b b') : Reported key b false b' where
  wellFormed := h.wellFormed hb
  size := by
    rw [h.size]
    cases b.containsObject key <;> simp [notedChange]

theorem refl : Reported key b false b := kept hb (.refl b)

theorem removed (h : b.slots.holds kind key = true) :
    Reported key b true (b.removeSlot key kind) where
  wellFormed := removeSlot_wellFormed hb key kind
  size := by
    have hsize := size_drop h
    rw [containsObject_of_holds h]
    simp only [notedChange, removeSlot]
    omega

theorem created (h : b.containsObject key = false)
    (object : Contents β σ kind) : Reported key b true (b.putSlot key kind object) where
  wellFormed := by
    have hfresh := containsObject_eq_false.mp h
    refine ⟨hb.exclusive.put hfresh object, ?_⟩
    intro key' hdate
    obtain ⟨other, hother⟩ := containsObject_iff.mp (hb.dated key' hdate)
    refine containsObject_iff.mpr ⟨other, ?_⟩
    change (b.slots.put kind key object).holds other key' = true
    rw [holds_put, hother, Bool.or_true]
  size := by
    have hsize := size_put_of_fresh (containsObject_eq_false.mp h kind) object
    rw [h]
    simp only [notedChange, putSlot]
    omega

end

theorem after_kept (h : Kept b b') (hreport : Reported key b' changed b'') :
    Reported key b changed b'' where
  wellFormed := hreport.wellFormed
  size := by
    have hsize := hreport.size
    rw [h.size, h.containsObject] at hsize
    exact hsize

end Reported

/-- A first half either finishes without moving a key, or leaves the key free. -/
def Attempted (key : β) (b : RedisObjectBucket β σ) : RedisObjectWriteAttempt β σ → Prop
  | .complete _ b' => Kept b b'
  | .missing b' => Kept b b' ∧ b'.containsObject key = false

section

variable (b)

theorem editExisting_attempted (key : β)
    (edit : Contents β σ kind → RedisObjectResult β × Contents β σ kind) :
    Attempted key b (b.editExisting key kind edit) := by
  unfold editExisting
  split
  next object hlookup => exact putSlot_kept (holds_of_lookup hlookup) _
  next hnone =>
    split_ifs with hnon
    · exact .refl b
    · exact ⟨.refl b, not_containsObject hnone (by simpa using hnon)⟩

theorem pushListExistingOrWrongtypeHashed_attempted (key : β) (values : List β) (front : Bool) :
    Attempted key b (b.pushListExistingOrWrongtypeHashed key values front) := by
  unfold pushListExistingOrWrongtypeHashed
  split_ifs
  · exact .refl b
  · exact editExisting_attempted b key _

theorem saddExistingOrWrongtypeHashed_attempted (key : β)
    (members : List β) : Attempted key b (b.saddExistingOrWrongtypeHashed key members) := by
  unfold saddExistingOrWrongtypeHashed
  split_ifs
  · exact .refl b
  · exact editExisting_attempted b key _

theorem hsetExistingOrWrongtypeHashed_attempted (key field value : β)
    (nowMs : ℕ) : Attempted key b (b.hsetExistingOrWrongtypeHashed key field value nowMs) := by
  have hkept := removeExpiredHashFieldsForWrite_kept b key nowMs
  unfold hsetExistingOrWrongtypeHashed
  dsimp only
  split
  next hash hlookup =>
    have hput := putSlot_kept (holds_of_lookup hlookup) (hash.insert field value)
    exact hkept.trans (hput.trans (clearHashFieldTtl_kept _ key field))
  next hnone =>
    split_ifs with hnon
    · exact hkept
    · exact ⟨hkept, not_containsObject hnone (by simpa using hnon)⟩

theorem removeHashIfEmpty_cases (key : β) : b.removeHashIfEmpty key = (false, b) ∨
      b.slots.holds .hash key = true ∧ b.removeHashIfEmpty key = (true, b.removeSlot key .hash) := by
  unfold removeHashIfEmpty
  split
  · exact .inl rfl
  next hash hlookup =>
    split_ifs
    · exact .inr ⟨holds_of_lookup hlookup, rfl⟩
    · exact .inl rfl

end
end RedisObjectBucket
end ShardKv
