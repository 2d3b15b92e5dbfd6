import ShardKv.Objects.ObjectStore

/-!
# Which keys a bucket stores

A bucket is well formed when no key is stored under two kinds and only stored
keys carry a deadline. Most writes change what a slot holds and move no key at
all; the others add a slot or give one up. A removal tells whether it took a
slot away, and that is all there is to know about the number of slots left.
-/
namespace ShardKv

open SlotTable
variable {β σ : Type} [LinearOrder β] [LinearOrder σ]

namespace RedisObjectBucket

variable {b b' b'' : RedisObjectBucket β σ} {key : β} {kind : ObjectKind}

theorem mem_all (kind : ObjectKind) : kind ∈ ObjectKind.all := by
  cases kind <;> decide

theorem containsObject_iff : b.containsObject key = true ↔ ∃ kind, b.slots.holds kind key = true := by
  simp [containsObject, mem_all]

theorem containsObject_eq_false :
    b.containsObject key = false ↔ ∀ kind, b.slots.holds kind key = false := by
  simp [containsObject, mem_all]

theorem containsObject_of_holds (h : b.slots.holds kind key = true) : b.containsObject key = true :=
  containsObject_iff.mpr ⟨kind, h⟩

variable (b key kind) in
theorem containsObject_eq_or :
    b.containsObject key = (b.slots.holds kind key || b.hasNon key kind) := by
  rw [Bool.eq_iff_iff, Bool.or_eq_true, containsObject_iff]
  simp only [hasNon, List.any_eq_true, List.mem_filter, mem_all, true_and, decide_eq_true_eq]
  constructor
  · rintro ⟨other, hother⟩
    by_cases hkind : other = kind
    · exact .inl (hkind ▸ hother)
    · exact .inr ⟨other, hkind, hother⟩
  · rintro (h | ⟨other, -, hother⟩)
    · exact ⟨kind, h⟩
    · exact ⟨other, hother⟩

theorem not_containsObject (hnone : (b.slots kind).lookup key = none)
    (hnon : b.hasNon key kind = false) : b.containsObject key = false := by
  rw [b.containsObject_eq_or key kind, not_holds_of_lookup hnone, hnon]
  rfl

/-- A key is stored under one kind at most, and only stored keys carry a deadline. -/
structure WellFormed (b : RedisObjectBucket β σ) : Prop where
  exclusive : b.slots.Exclusive
  dated : ∀ key, (b.expireAtMs.lookup key).isSome = true → b.containsObject key = true

theorem wellFormed_empty : ({} : RedisObjectBucket β σ).WellFormed where
  exclusive := by
    intro key kind kind' h
    exact absurd h (by simp [SlotTable.holds, empty])
  dated := by
    intro key h
    exact absurd h (by simp)

/-- The same keys are stored, with the same key deadlines. -/
structure Kept (b b' : RedisObjectBucket β σ) : Prop where
  holds : ∀ kind key, b'.slots.holds kind key = b.slots.holds kind key
  size : b'.slots.size = b.slots.size
  expireAtMs : b'.expireAtMs = b.expireAtMs

namespace Kept

variable (b) in
theorem refl : Kept b b := ⟨fun _ _ => rfl, rfl, rfl⟩

theorem trans (h : Kept b b') (h' : Kept b' b'') : Kept b b'' where
  holds kind key := (h'.holds kind key).trans (h.holds kind key)
  size := h'.size.trans h.size
  expireAtMs := h'.expireAtMs.trans h.expireAtMs

theorem of_slots (hslots : b'.slots = b.slots) (hdates : b'.expireAtMs = b.expireAtMs) :
    Kept b b' where
  holds kind key := by rw [hslots]
  size := by rw [hslots]
  expireAtMs := hdates

theorem containsObject (h : Kept b b') (key : β) : b'.containsObject key = b.containsObject key := by
  unfold RedisObjectBucket.containsObject
  simp only [h.holds]

theorem wellFormed (h : Kept b b') (hb : b.WellFormed) : b'.WellFormed where
  exclusive key kind kind' hkind hkind' := by
    rw [h.holds] at hkind hkind'
    exact hb.exclusive key kind kind' hkind hkind'
  dated key hdate := by
    rw [h.expireAtMs] at hdate
    rw [h.containsObject]
    exact hb.dated key hdate

end Kept

theorem putSlot_kept (h : b.slots.holds kind key = true) (object : Contents β σ kind) :
    Kept b (b.putSlot key kind object) where
  holds := holds_put_of_holds h object
  size := size_put_of_holds h object
  expireAtMs := rfl

variable (b) in
theorem setHashFieldExpiry_kept (key field : β) (expireAtMs : ℕ) :
    Kept b (b.setHashFieldExpiry key field expireAtMs) :=
  .of_slots rfl rfl

variable (b) in
theorem clearHashFieldTtl_kept (key field : β) : Kept b (b.clearHashFieldTtl key field) := by
  unfold clearHashFieldTtl
  split
  · exact .refl b
  · exact .of_slots rfl rfl

theorem clearHashFieldTtls_kept (key : β) (fields : List β) :
    ∀ b : RedisObjectBucket β σ, Kept b (b.clearHashFieldTtls key fields) := by
  induction fields with
  | nil => exact fun b => .refl b
  | cons field fields ih =>
    intro b
    exact (clearHashFieldTtl_kept b key field).trans (ih _)

theorem setHashFieldExpiries_kept (key : β) (expireAtMs : ℕ) (fields : List β) :
    ∀ b : RedisObjectBucket β σ, Kept b (b.setHashFieldExpiries key fields expireAtMs) := by
  induction fields with
  | nil => exact fun b => .refl b
  | cons field fields ih =>
    intro b
    exact (setHashFieldExpiry_kept b key field expireAtMs).trans (ih _)

variable (b key) in
theorem removeExpiredHashFields_kept (nowMs : ℕ) :
    Kept b (b.removeExpiredHashFields key nowMs) := by
  unfold removeExpiredHashFields
  dsimp only
  split_ifs
  · exact .refl b
  · refine Kept.trans ?_ (clearHashFieldTtls_kept key _ _)
    split
    next hash hlookup => exact putSlot_kept (holds_of_lookup hlookup) _
    next => exact .refl b

variable (b key) in
theorem removeExpiredHashFieldsForWrite_kept (nowMs : ℕ) :
    Kept b (b.removeExpiredHashFieldsForWrite key nowMs) := by
  unfold removeExpiredHashFieldsForWrite
  split_ifs
  · exact removeExpiredHashFields_kept b key nowMs
  · exact .refl b

theorem removeSlot_wellFormed (hb : b.WellFormed) (key : β) (kind : ObjectKind) :
    (b.removeSlot key kind).WellFormed where
  exclusive := hb.exclusive.drop kind key
  dated key' hdate := by
    change ((b.expireAtMs.erase key).lookup key').isSome = true at hdate
    rw [FinMap.lookup_erase_eq] at hdate
    split_ifs at hdate with hkey
    · simp at hdate
    · obtain ⟨other, hother⟩ := containsObject_iff.mp (hb.dated key' hdate)
      refine containsObject_iff.mpr ⟨other, ?_⟩
      change (b.slots.drop kind key).holds other key' = true
      rw [holds_drop]
      simp [hkey, hother]

/-- A removal that tells whether it took a slot away. -/
structure Removes (b : RedisObjectBucket β σ) (out : Bool × RedisObjectBucket β σ) : Prop where
  wellFormed : out.2.WellFormed
  size : out.2.slots.size + out.1.toNat = b.slots.size

namespace Removes

theorem kept (hb : b.WellFormed) (h : Kept b b') : Removes b (false, b') :=
  ⟨h.wellFormed hb, h.size⟩

theorem taken (hb : b.WellFormed) (h : b.slots.holds kind key = true) :
    Removes b (true, b.removeSlot key kind) :=
  ⟨removeSlot_wellFormed hb key kind, size_drop h⟩

theorem after_kept {out : Bool × RedisObjectBucket β σ} (h : Kept b b') (hout : Removes b' out) :
    Removes b out :=
  ⟨hout.wellFormed, hout.size.trans h.size⟩

end Removes

theorem deleteAny_of_stored (h : b.containsObject key = true) :
    ∃ kind, b.slots.holds kind key = true ∧ b.deleteAny key = (true, b.removeSlot key kind) := by
  have hfind := List.find?_isSome.mpr (List.any_eq_true.mp h)
  obtain ⟨kind, hkind⟩ := Option.isSome_iff_exists.mp hfind
  exact ⟨kind, by simpa using List.find?_some hkind, by simp [deleteAny, hkind]⟩

theorem deleteAny_of_free (h : b.containsObject key = false) : b.deleteAny key = (false, b) := by
  have hfind : ObjectKind.all.find? (fun kind => b.slots.holds kind key) = none :=
    List.find?_eq_none.mpr fun kind _ => by simp [containsObject_eq_false.mp h kind]
  simp [deleteAny, hfind]

section

variable (hb : b.WellFormed)
include hb

/-- A key is in no map any more once whatever it held was deleted. -/
theorem lookup_deleteAny (key : β) (kind : ObjectKind) :
    ((b.deleteAny key).2.slots kind).lookup key = none := by
  rw [← Option.not_isSome_iff_eq_none]
  cases hstored : b.containsObject key with
  | true =>
    obtain ⟨held, hheld, hdelete⟩ := deleteAny_of_stored hstored
    rw [hdelete]
    exact ne_true_of_eq_false (hb.exclusive.not_holds_drop hheld kind)
  | false =>
    rw [deleteAny_of_free hstored]
    exact ne_true_of_eq_false (containsObject_eq_false.mp hstored kind)

theorem containsObject_of_expired {nowMs : ℕ} (h : b.objectIsExpired key nowMs = true) :
    b.containsObject key = true := by
  refine hb.dated key ?_
  cases hlookup : b.expireAtMs.lookup key with
  | none => simp [objectIsExpired, hlookup] at h
  | some expireAtMs => rfl

theorem deleteAny_removes (key : β) : Removes b (b.deleteAny key) := by
  unfold deleteAny
  split
  next kind hfind => exact .taken hb (by simpa using List.find?_some hfind)
  next => exact .kept hb (.refl b)

theorem deleteExpired_removes (key : β) (nowMs : ℕ) : Removes b (b.deleteExpired key nowMs) := by
  unfold deleteExpired
  split_ifs
  · exact deleteAny_removes hb key
  · exact .kept hb (.refl b)

theorem removeHashIfEmpty_removes (key : β) : Removes b (b.removeHashIfEmpty key) := by
  unfold removeHashIfEmpty
  split
  · exact .kept hb (.refl b)
  next hash hlookup =>
    split_ifs
    · exact .taken hb (holds_of_lookup hlookup)
    · exact .kept hb (.refl b)

theorem removeExpiredHashIfEmpty_removes (key : β) (nowMs : ℕ) :
    Removes b (b.removeExpiredHashIfEmpty key nowMs) :=
  .after_kept (removeExpiredHashFields_kept b key nowMs)
    (removeHashIfEmpty_removes ((removeExpiredHashFields_kept b key nowMs).wellFormed hb) key)

end

/-- A removal that only goes on when nothing was taken yet. -/
theorem Removes.orElse {first : Bool × RedisObjectBucket β σ} (h : Removes b first)
    {next : RedisObjectBucket β σ → Bool × RedisObjectBucket β σ}
    (hnext : ∀ b', b'.WellFormed → Removes b' (next b')) :
    Removes b (orElse first next) := by
  obtain ⟨_ | _, after⟩ := first
  · have hafter := hnext after h.wellFormed
    exact ⟨hafter.wellFormed, hafter.size.trans h.size⟩
  · exact h

theorem purge_removes (hb : b.WellFormed) (key : β) (nowMs : ℕ) : Removes b (b.purge key nowMs) :=
  (deleteExpired_removes hb key nowMs).orElse fun _ hb' =>
    removeExpiredHashIfEmpty_removes hb' key nowMs

theorem purgeForWrite_removes (hb : b.WellFormed) (key : β) (nowMs : ℕ) :
    Removes b (b.purgeForWrite key nowMs) := by
  have hfirst : Removes b (if b.hasExpirations then b.deleteExpired key nowMs else (false, b)) := by
    split_ifs
    · exact deleteExpired_removes hb key nowMs
    · exact .kept hb (.refl b)
  exact hfirst.orElse fun _ hb' => removeExpiredHashIfEmpty_removes hb' key nowMs

end RedisObjectBucket
end ShardKv
