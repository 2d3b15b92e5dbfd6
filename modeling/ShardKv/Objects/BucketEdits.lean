import ShardKv.Objects.BucketOps

/-!
# Bucket operations as edits

Every operation on a bucket comes down to a few edits: a stored object is written in
place, an object is created under a free key, a slot is given up, and deadlines are set
or cleared. What an edit requires is said once, and whatever holds along edits holds
along operations.
-/
namespace ShardKv

open SlotTable FinMap Contents
variable {β σ : Type} [LinearOrder β] [LinearOrder σ]

namespace RedisObjectBucket

variable {b b' b₁ : RedisObjectBucket β σ} {key : β} {kind : ObjectKind} {hash : FinMap β β}
  {nowMs : ℕ} {field : β}

/-- Every deadline of a hash field belongs to a field of a stored hash, and no key has an empty
map of deadlines. -/
structure FieldsStored (b : RedisObjectBucket β σ) : Prop where
  nonempty : ∀ key submap, b.hashFieldExpireAtMs.lookup key = some submap →
    ∃ field, (submap.lookup field).isSome = true
  stored : ∀ key field, (b.hashFieldExpiry key field).isSome = true →
    ∃ hash, b.hashes.lookup key = some hash ∧ (hash.lookup field).isSome = true

/-- What holds between operations. -/
structure Sound (b : RedisObjectBucket β σ) : Prop where
  wellFormed : b.WellFormed
  fields : b.FieldsStored

inductive Edit (b : RedisObjectBucket β σ) : RedisObjectBucket β σ → Prop
  | write {key : β} {kind : ObjectKind} {old : Contents β σ kind} (object : Contents β σ kind)
      (hkind : kind ≠ .hash) (hold : (b.slots kind).lookup key = some old) :
      Edit b (b.putSlot key kind object)
  | writeHash {key : β} {old : FinMap β β} (hash : FinMap β β)
      (hold : b.hashes.lookup key = some old)
      (hdated : ∀ field, (b.hashFieldExpiry key field).isSome = true →
        (hash.lookup field).isSome = true) :
      Edit b (b.putSlot key .hash hash)
  | create {key : β} {kind : ObjectKind} (object : Contents β σ kind)
      (hfree : b.containsObject key = false) : Edit b (b.putSlot key kind object)
  | remove {key : β} {kind : ObjectKind} (hheld : b.slots.holds kind key = true) :
      Edit b (b.removeSlot key kind)
  | clear (key field : β) : Edit b (b.clearHashFieldTtl key field)
  | date {key field : β} {hash : FinMap β β} (hlookup : b.hashes.lookup key = some hash)
      (hfield : (hash.lookup field).isSome = true) (expireAtMs : ℕ) :
      Edit b (b.setHashFieldExpiry key field expireAtMs)
  | deadlines (dates : FinMap β ℕ)
      (hdates : ∀ key, (dates.lookup key).isSome = true → b.containsObject key = true) :
      Edit b { b with expireAtMs := dates }

abbrev Edits : RedisObjectBucket β σ → RedisObjectBucket β σ → Prop :=
  Relation.ReflTransGen Edit

variable (b key kind) in
theorem putSlot_putSlot (first second : Contents β σ kind) :
    (b.putSlot key kind first).putSlot key kind second = b.putSlot key kind second := by
  simp [putSlot, SlotTable.put, SlabMap.insert_insert]

theorem removeSlot_putSlot (hheld : b.slots.holds kind key = true) (object : Contents β σ kind) :
    (b.putSlot key kind object).removeSlot key kind = b.removeSlot key kind := by
  simp [putSlot, removeSlot, SlotTable.put, drop, SlabMap.erase_insert hheld]

theorem clears_putSlot (key other : β) (object : Contents β σ kind) (fields : List β) :
    ∀ b : RedisObjectBucket β σ, (b.putSlot key kind object).clearHashFieldTtls other fields =
      (b.clearHashFieldTtls other fields).putSlot key kind object := by
  induction fields with
  | nil => exact fun _ => rfl
  | cons field fields ih =>
    intro b
    have hone : (b.putSlot key kind object).clearHashFieldTtl other field =
        (b.clearHashFieldTtl other field).putSlot key kind object := by
      unfold clearHashFieldTtl putSlot
      dsimp only
      split <;> rfl
    simp only [clearHashFieldTtls, List.foldl_cons, hone]
    exact ih _

section

variable (b key)

theorem hashes_putSlot (hash : FinMap β β) (other : β) :
    (b.putSlot key .hash hash).hashes.lookup other =
      if other = key then some hash else b.hashes.lookup other := by
  simp only [hashes, putSlot, put_self, SlabMap.lookup_insert_eq]

theorem hashes_clears (fields : List β) : (b.clearHashFieldTtls key fields).hashes = b.hashes := by
  rw [hashes, clearHashFieldTtls_slots]
  rfl

end

section

variable (b)

theorem slots_putSlot_of_ne {other : ObjectKind} (key : β)
    (object : Contents β σ kind) (hother : other ≠ kind) :
    (b.putSlot key kind object).slots other = b.slots other := by
  simp [putSlot, SlotTable.put, hother]

variable (key kind) in
theorem lookup_removeSlot (other : β) : ((b.removeSlot key kind).slots kind).lookup other =
      if other = key then none else (b.slots kind).lookup other := by
  simp only [removeSlot, drop_self, SlabMap.lookup_erase_eq]

theorem slots_removeSlot_of_ne {other : ObjectKind} (key : β)
    (hother : other ≠ kind) : (b.removeSlot key kind).slots other = b.slots other := by
  simp [removeSlot, drop, hother]

end

theorem fieldsStored_empty : ({} : RedisObjectBucket β σ).FieldsStored where
  nonempty _ _ h := absurd h (by simp)
  stored _ _ h := absurd h (by simp [hashFieldExpiry])

theorem sound_empty : Sound ({} : RedisObjectBucket β σ) where
  wellFormed := wellFormed_empty
  fields := fieldsStored_empty

namespace FieldsStored

section

variable (h : b.FieldsStored)
include h

theorem field_stored (hlookup : b.hashes.lookup key = some hash)
    (hdated : (b.hashFieldExpiry key field).isSome = true) : (hash.lookup field).isSome = true := by
  obtain ⟨stored, hstored, hfield⟩ := h.stored key field hdated
  rw [hlookup] at hstored
  cases hstored
  exact hfield

/-- Hash and deadlines change at one key only. -/
theorem change (key : β) (hdates : ∀ other, other ≠ key →
      b'.hashFieldExpireAtMs.lookup other = b.hashFieldExpireAtMs.lookup other)
    (hhashes : ∀ other, other ≠ key → b'.hashes.lookup other = b.hashes.lookup other)
    (hnonempty : ∀ submap, b'.hashFieldExpireAtMs.lookup key = some submap →
      ∃ field, (submap.lookup field).isSome = true)
    (hstored : ∀ field, (b'.hashFieldExpiry key field).isSome = true →
      ∃ hash, b'.hashes.lookup key = some hash ∧ (hash.lookup field).isSome = true) :
    b'.FieldsStored := by
  refine ⟨fun other => ?_, fun other => ?_⟩ <;> by_cases hother : other = key
  · exact hother ▸ hnonempty
  · rw [hdates other hother]
    exact h.nonempty other
  · exact hother ▸ hstored
  · rw [hhashes other hother]
    simp only [hashFieldExpiry, hdates other hother]
    exact h.stored other

/-- The hash of one key changes, and still has the fields that carry deadlines. -/
theorem put (kind : ObjectKind) (object : Contents β σ kind)
    (hdated : ∀ field, (b.hashFieldExpiry key field).isSome = true → ∃ hash,
      (b.putSlot key kind object).hashes.lookup key = some hash ∧ (hash.lookup field).isSome = true) :
    (b.putSlot key kind object).FieldsStored := by
  refine h.change key (fun _ _ => rfl) (fun other hother => ?_) (h.nonempty key) hdated
  by_cases hkind : kind = .hash
  · subst hkind
    rw [hashes_putSlot, if_neg hother]
  · rw [hashes, slots_putSlot_of_ne b key object (Ne.symm hkind)]
    rfl

variable (key kind) in
theorem remove : (b.removeSlot key kind).FieldsStored := by
  by_cases hkind : kind = .hash
  · subst hkind
    have hnone : (b.removeSlot key .hash).hashFieldExpireAtMs.lookup key = none := by
      simp [removeSlot]
    refine h.change key (fun other hother => ?_) (fun other hother => ?_) (by simp [hnone])
      (by simp [hashFieldExpiry, hnone])
    · simp only [removeSlot, if_true, lookup_erase_eq, if_neg hother]
    · exact (lookup_removeSlot b key .hash other).trans (if_neg hother)
  · have hfields : (b.removeSlot key kind).hashFieldExpireAtMs = b.hashFieldExpireAtMs := by
      simp [removeSlot, hkind]
    refine ⟨fun other submap hother => h.nonempty other submap (by rwa [hfields] at hother), ?_⟩
    intro other field hother
    rw [hashFieldExpiry, hfields] at hother
    rw [hashes, slots_removeSlot_of_ne b key (Ne.symm hkind)]
    exact h.stored other field hother

theorem clear (key field : β) : (b.clearHashFieldTtl key field).FieldsStored := by
  have hclear := hashFieldExpiry_clear b key field
  unfold clearHashFieldTtl at hclear ⊢
  cases hsubmap : b.hashFieldExpireAtMs.lookup key with
  | none => exact h
  | some =>
    simp only [hsubmap] at hclear
    refine h.change key (fun other hother => ?_) (fun _ _ => rfl) (fun submap hkey => ?_)
      fun f hf => ?_
    · dsimp only
      split_ifs <;> simp [hother]
    · dsimp only at hkey
      split_ifs at hkey with hempty
      · simp at hkey
      · rw [AList.lookup_insert] at hkey
        cases hkey
        by_contra hnone
        push Not at hnone
        exact hempty (keys_isEmpty_iff.mpr fun f => by simpa using hnone f)
    · refine h.stored key f ?_
      rw [hclear] at hf
      split_ifs at hf
      · simp at hf
      · exact hf

theorem date (hlookup : b.hashes.lookup key = some hash)
    (hfield : (hash.lookup field).isSome = true) (expireAtMs : ℕ) :
    (b.setHashFieldExpiry key field expireAtMs).FieldsStored := by
  have hkey : (b.setHashFieldExpiry key field expireAtMs).hashFieldExpireAtMs.lookup key =
      some (((b.hashFieldExpireAtMs.lookup key).getD ∅).insert field expireAtMs) := by
    simp [setHashFieldExpiry]
  refine h.change key (fun other hother => ?_) (fun _ _ => rfl) (fun submap hsubmap => ?_)
    fun f hf => ⟨hash, hlookup, ?_⟩
  · simp only [setHashFieldExpiry, lookup_insert_eq, if_neg hother]
  · rw [hkey] at hsubmap
    cases hsubmap
    exact ⟨field, by simp⟩
  · rw [hashFieldExpiry, hkey, Option.bind_some, lookup_insert_eq] at hf
    split_ifs at hf with heq
    · rw [heq]
      exact hfield
    · refine h.field_stored hlookup ?_
      cases hold : b.hashFieldExpireAtMs.lookup key with
      | none => simp [hold] at hf
      | some => simpa [hashFieldExpiry, hold] using hf

end
end FieldsStored

theorem Edit.sound (h : Sound b) (hedit : Edit b b') : Sound b' := by
  cases hedit with
  | @write key kind old object hkind hold =>
    refine ⟨(putSlot_kept (holds_of_lookup hold) object).wellFormed h.wellFormed,
      h.fields.put _ object fun field hfield => ?_⟩
    rw [hashes, slots_putSlot_of_ne b key object (Ne.symm hkind)]
    exact h.fields.stored key field hfield
  | @writeHash key old hash hold hdated =>
    refine ⟨(putSlot_kept (holds_of_lookup hold) hash).wellFormed h.wellFormed,
      h.fields.put .hash hash fun field hfield => ?_⟩
    exact ⟨hash, (hashes_putSlot b key hash key).trans (if_pos rfl), hdated field hfield⟩
  | @create key kind object hfree =>
    refine ⟨(Reported.created h.wellFormed hfree object).wellFormed,
      h.fields.put _ object fun field hfield => ?_⟩
    obtain ⟨hash, hlookup, -⟩ := h.fields.stored key field hfield
    have hheld := holds_of_lookup hlookup
    exact absurd (containsObject_of_holds hheld) (by simp [hfree])
  | @remove key kind hheld =>
    exact ⟨removeSlot_wellFormed h.wellFormed key kind, h.fields.remove key kind⟩
  | clear key field =>
    exact ⟨(clearHashFieldTtl_kept b key field).wellFormed h.wellFormed, h.fields.clear key field⟩
  | @date key field hash hlookup hfield expireAtMs =>
    exact ⟨(setHashFieldExpiry_kept b key field expireAtMs).wellFormed h.wellFormed,
      h.fields.date hlookup hfield expireAtMs⟩
  | deadlines dates hdates =>
    exact ⟨⟨h.wellFormed.exclusive, hdates⟩, ⟨h.fields.nonempty, h.fields.stored⟩⟩

theorem Edits.sound (hedits : Edits b b') (h : Sound b) : Sound b' := by
  induction hedits with
  | refl => exact h
  | tail _ hedit ih => exact hedit.sound ih

/-- Edits that move no key. -/
structure Keeps (b b' : RedisObjectBucket β σ) : Prop where
  edits : Edits b b'
  kept : Kept b b'

/-- Edits that the flag of a write reports rightly. -/
structure Writes (key : β) (b : RedisObjectBucket β σ) (changed : Bool)
    (b' : RedisObjectBucket β σ) : Prop where
  edits : Edits b b'
  reported : Reported key b changed b'

/-- The write of a command with its own flag. -/
abbrev Wrote (key : β) (b : RedisObjectBucket β σ) (out : BucketWrite β σ) : Prop :=
  Writes key b out.changed out.bucket

namespace Keeps

theorem refl (b : RedisObjectBucket β σ) : Keeps b b := ⟨.refl, .refl b⟩

theorem trans (h : Keeps b b₁) (h' : Keeps b₁ b') : Keeps b b' :=
  ⟨h.edits.trans h'.edits, h.kept.trans h'.kept⟩

theorem writes (hkeeps : Keeps b b') (h : Sound b) : Writes key b false b' :=
  ⟨hkeeps.edits, .kept h.wellFormed hkeeps.kept⟩

theorem andThen {changed : Bool} (hkeeps : Keeps b b₁)
    (hwrites : Writes key b₁ changed b') : Writes key b changed b' :=
  ⟨hkeeps.edits.trans hwrites.edits, .after_kept hkeeps.kept hwrites.reported⟩

theorem clears (key : β) (fields : List β) :
    ∀ b : RedisObjectBucket β σ, Keeps b (b.clearHashFieldTtls key fields) := by
  induction fields with
  | nil => exact refl
  | cons field fields ih =>
    exact fun b => .trans ⟨.single (.clear key field), clearHashFieldTtl_kept b key field⟩ (ih _)

end Keeps

theorem Sound.writes_refl (h : Sound b) : Writes key b false b :=
  (Keeps.refl b).writes h

/-- What the removal of passed fields leaves: the bucket as it was, or a hash without some fields
and without their deadlines. -/
def Cleaned (key : β) (b b₁ : RedisObjectBucket β σ) : Prop :=
  b₁ = b ∨ ∃ hash fields, b.hashes.lookup key = some hash ∧
    b₁ = (b.clearHashFieldTtls key fields).putSlot key .hash (eraseFields hash fields)

theorem removeExpiredHashFields_cleaned (h : b.FieldsStored) (key : β) (nowMs : ℕ) :
    Cleaned key b (b.removeExpiredHashFields key nowMs) := by
  unfold removeExpiredHashFields
  dsimp only
  split_ifs with hnone
  · exact .inl rfl
  · cases hlookup : b.hashes.lookup key with
    | some => exact .inr ⟨_, _, hlookup, clears_putSlot key key _ _ b⟩
    | none =>
      -- without a hash there is no deadline that could have passed
      obtain ⟨field, hfield⟩ := List.exists_mem_of_ne_nil _ (by simpa using hnone)
      have hdated : (b.hashFieldExpiry key field).isSome = true := by
        rw [mem_expiredHashFields, hashFieldIsExpired, Option.any_eq_true] at hfield
        obtain ⟨deadline, hdeadline, -⟩ := hfield
        exact Option.isSome_of_eq_some hdeadline
      obtain ⟨hash, hsome, -⟩ := h.stored key field hdated
      exact absurd (hlookup.symm.trans hsome) (by simp)

theorem removeExpiredHashFieldsForWrite_cleaned (h : b.FieldsStored) (key : β) (nowMs : ℕ) :
    Cleaned key b (b.removeExpiredHashFieldsForWrite key nowMs) := by
  unfold removeExpiredHashFieldsForWrite
  split_ifs
  · exact removeExpiredHashFields_cleaned h key nowMs
  · exact .inl rfl

namespace Cleaned

section

variable (hc : Cleaned key b b₁)
include hc

theorem eq_of_none (hnone : b₁.hashes.lookup key = none) : b₁ = b := by
  obtain rfl | ⟨old, fields, hold, rfl⟩ := hc
  · rfl
  · exact absurd hnone (by simp [hashes_putSlot])

theorem untouched (h : Sound b) (hnone : b₁.hashes.lookup key = none) :
    Writes key b false b₁ := by
  rw [hc.eq_of_none hnone]
  exact h.writes_refl

theorem kept : Kept b b₁ := by
  obtain rfl | ⟨hash, fields, hlookup, rfl⟩ := hc
  · exact .refl b₁
  · refine (clearHashFieldTtls_kept key fields b).trans (putSlot_kept ?_ _)
    rw [clearHashFieldTtls_slots]
    exact holds_of_lookup hlookup

/-- A hash that is written after the clean-up is written once, when the deadlines are cleared. -/
theorem write {old : FinMap β β} (hold : b₁.hashes.lookup key = some old) (hash : FinMap β β)
    (fields : List β)
    (hdated : ∀ field, field ∉ fields → (b₁.hashFieldExpiry key field).isSome = true →
      (hash.lookup field).isSome = true) :
    Keeps b ((b₁.putSlot key .hash hash).clearHashFieldTtls key fields) := by
  refine ⟨?_, hc.kept.trans ((putSlot_kept (holds_of_lookup hold) hash).trans
    (clearHashFieldTtls_kept key fields _))⟩
  have hleft (field : β) (hfield :
      ((b₁.clearHashFieldTtls key fields).hashFieldExpiry key field).isSome = true) :
      (hash.lookup field).isSome = true := by
    rw [hashFieldExpiry_clears] at hfield
    split_ifs at hfield with hmem
    · simp at hfield
    · exact hdated field hmem hfield
  rw [clears_putSlot]
  obtain rfl | ⟨first, passed, hfirst, rfl⟩ := hc
  · rw [← hashes_clears b₁ key fields] at hold
    exact (Keeps.clears key fields b₁).edits.tail (.writeHash hash hold hleft)
  · rw [clears_putSlot] at hleft ⊢
    rw [putSlot_putSlot]
    rw [← hashes_clears b key passed, ← hashes_clears _ key fields] at hfirst
    exact ((Keeps.clears key passed b).trans (Keeps.clears key fields _)).edits.tail
      (.writeHash hash hfirst hleft)

/-- The clean-up by itself. -/
theorem keeps (h : b.FieldsStored) : Keeps b b₁ := by
  refine ⟨?_, hc.kept⟩
  obtain rfl | ⟨hash, fields, hlookup, rfl⟩ := hc
  · exact .refl
  · have hcleared := hlookup
    rw [← hashes_clears b key fields] at hcleared
    refine (Keeps.clears key fields b).edits.tail (.writeHash _ hcleared fun field hfield => ?_)
    rw [hashFieldExpiry_clears] at hfield
    split_ifs at hfield with hmem
    · simp at hfield
    · rw [lookup_eraseFields, if_neg hmem]
      exact h.field_stored hlookup hfield

theorem remove (h : Sound b) (hheld : b₁.slots.holds .hash key = true) :
    Writes key b true (b₁.removeSlot key .hash) := by
  refine ⟨?_, .after_kept hc.kept (.removed (hc.kept.wellFormed h.wellFormed) hheld)⟩
  obtain rfl | ⟨hash, fields, hlookup, rfl⟩ := hc
  · exact .single (.remove hheld)
  · have hstill : (b.clearHashFieldTtls key fields).slots.holds .hash key = true := by
      rw [clearHashFieldTtls_slots]
      exact holds_of_lookup hlookup
    rw [removeSlot_putSlot hstill]
    exact (Keeps.clears key fields b).edits.tail (.remove hstill)

theorem fields (h : Sound b) : b₁.FieldsStored :=
  (Edits.sound (hc.keeps h.fields).edits h).fields

theorem trans {b₂ : RedisObjectBucket β σ} (hc' : Cleaned key b₁ b₂) : Cleaned key b b₂ := by
  obtain rfl | ⟨hash, fields, hlookup, rfl⟩ := hc
  · exact hc'
  · obtain rfl | ⟨left, later, hleft, rfl⟩ := hc'
    · exact .inr ⟨hash, fields, hlookup, rfl⟩
    · rw [hashes_putSlot, if_pos rfl] at hleft
      cases hleft
      refine .inr ⟨hash, fields ++ later, hlookup, ?_⟩
      rw [clears_putSlot, putSlot_putSlot]
      simp only [clearHashFieldTtls, eraseFields, List.foldl_append]

end
end Cleaned

variable (b key) in
theorem deleteAny_edits : Edits b (b.deleteAny key).2 := by
  unfold deleteAny
  split
  next kind hfind => exact .single (.remove (by simpa using List.find?_some hfind))
  next => exact .refl

variable (b key nowMs) in
theorem deleteExpired_edits : Edits b (b.deleteExpired key nowMs).2 := by
  unfold deleteExpired
  split_ifs
  · exact deleteAny_edits b key
  · exact .refl

theorem removeHashIfEmpty_edits (hc : Cleaned key b b₁) (h : Sound b) :
    Edits b (b₁.removeHashIfEmpty key).2 := by
  unfold removeHashIfEmpty
  cases hlookup : b₁.hashes.lookup key with
  | none => rw [hc.eq_of_none hlookup]
  | some hash =>
    dsimp only
    cases hempty : hash.keys.isEmpty with
    | true => exact (hc.remove h (holds_of_lookup hlookup)).edits
    | false => exact (hc.keeps h.fields).edits

section

variable (h : Sound b)
include h

theorem removeExpiredHashIfEmpty_edits (key : β) (nowMs : ℕ) :
    Edits b (b.removeExpiredHashIfEmpty key nowMs).2 :=
  removeHashIfEmpty_edits (removeExpiredHashFields_cleaned h.fields key nowMs) h

theorem orElse_edits {first : Bool × RedisObjectBucket β σ} (hfirst : Edits b first.2)
    (key : β) (nowMs : ℕ) :
    Edits b (orElse first fun b => b.removeExpiredHashIfEmpty key nowMs).2 := by
  obtain ⟨_ | _, after⟩ := first
  · exact hfirst.trans (removeExpiredHashIfEmpty_edits (hfirst.sound h) key nowMs)
  · exact hfirst

section

variable (key : β)

theorem purge_edits (nowMs : ℕ) : Edits b (b.purge key nowMs).2 :=
  orElse_edits h (deleteExpired_edits b key nowMs) key nowMs

theorem purgeForWrite_edits (nowMs : ℕ) : Edits b (b.purgeForWrite key nowMs).2 := by
  refine orElse_edits h ?_ key nowMs
  split_ifs
  · exact deleteExpired_edits b key nowMs
  · exact .refl

theorem expire_edits (expireAtMs nowMs : ℕ) : Edits b (b.expire key expireAtMs nowMs).2 := by
  have hlive : Edits b _ := deleteExpired_edits b key nowMs
  unfold expire
  generalize b.deleteExpired key nowMs = out at hlive ⊢
  obtain ⟨_ | _, after⟩ := out
  · dsimp only
    split_ifs with hstored
    · refine hlive.tail (.deadlines _ fun other hother => ?_)
      rw [lookup_insert_eq] at hother
      split_ifs at hother with hkey
      · rw [hkey]
        exact hstored
      · exact (Edits.sound hlive h).wellFormed.dated other hother
    · exact hlive
  · exact hlive

theorem persist_edits (nowMs : ℕ) : Edits b (b.persist key nowMs).2 := by
  have hlive : Edits b _ := deleteExpired_edits b key nowMs
  unfold persist
  generalize b.deleteExpired key nowMs = out at hlive ⊢
  obtain ⟨_ | _, after⟩ := out
  · refine hlive.tail (.deadlines _ fun other hother => ?_)
    rw [lookup_erase_eq] at hother
    split_ifs at hother
    · simp at hother
    · exact (Edits.sound hlive h).wellFormed.dated other hother
  · exact hlive

theorem ttlMillis_edits (nowMs : ℕ) : Edits b (b.ttlMillis key nowMs).2 := by
  have hlive : Edits b _ := deleteExpired_edits b key nowMs
  unfold ttlMillis
  generalize b.deleteExpired key nowMs = out at hlive ⊢
  obtain ⟨_ | _, after⟩ := out
  · have hleft := hlive.trans (removeExpiredHashIfEmpty_edits (Edits.sound hlive h) key nowMs)
    dsimp only at hleft ⊢
    generalize after.removeExpiredHashIfEmpty key nowMs = out' at hleft ⊢
    obtain ⟨_ | _, after'⟩ := out'
    · dsimp only
      split_ifs
      · exact hleft
      · split <;> exact hleft
    · exact hleft
  · exact hlive

theorem insertValue_edits (value : RedisObjectValue β σ) : Edits b (b.insertValue key value).2 := by
  refine (deleteAny_edits b key).tail (.create _ ?_)
  refine containsObject_eq_false.mpr fun kind => ?_
  exact not_holds_of_lookup (lookup_deleteAny h.wellFormed key kind)

theorem shrinkSlot_writes (hkind : kind ≠ .hash) (missing : RedisObjectResult β)
    (edit : Contents β σ kind → RedisObjectResult β × Contents β σ kind) :
    Wrote key b (b.shrinkSlot key kind missing edit) := by
  unfold shrinkSlot
  split
  next object hlookup =>
    have hheld := holds_of_lookup hlookup
    dsimp only
    split_ifs
    · exact ⟨.single (.remove hheld), .removed h.wellFormed hheld⟩
    · exact ⟨.single (.write _ hkind hlookup), .kept h.wellFormed (putSlot_kept hheld _)⟩
  next => split_ifs <;> exact h.writes_refl

theorem editSlot_writes (hkind : kind ≠ .hash) (missing : RedisObjectResult β)
    (edit : Contents β σ kind → RedisObjectResult β × Contents β σ kind) :
    Wrote key b (b.editSlot key kind missing edit) := by
  unfold editSlot
  split
  next object hlookup =>
    exact ⟨.single (.write _ hkind hlookup),
      .kept h.wellFormed (putSlot_kept (holds_of_lookup hlookup) _)⟩
  next => split_ifs <;> exact h.writes_refl

end
end

variable (b key) in
theorem editExisting_edits (hkind : kind ≠ .hash)
    (edit : Contents β σ kind → RedisObjectResult β × Contents β σ kind) (stringExists : Bool)
    (reply : RedisObjectResult β) (object : Contents β σ kind) :
    Edits b (orCreate (b.editExisting key kind edit) stringExists fun b =>
      (reply, b.putSlot key kind object)) := by
  have hattempt := editExisting_attempted b key edit
  unfold editExisting at hattempt ⊢
  cases hlookup : (b.slots kind).lookup key with
  | some old => exact .single (.write _ hkind hlookup)
  | none =>
    simp only [hlookup] at hattempt ⊢
    split_ifs at hattempt ⊢ with hnon
    · exact .refl
    · simp only [orCreate]
      split_ifs
      · exact .refl
      · exact .single (.create _ hattempt.2)

theorem lookup_insertFields_isSome (fields : List (β × β)) : ∀ hash,
    field ∈ fields.map Prod.fst ∨ (hash.lookup field).isSome = true →
      ((insertFields hash fields).2.lookup field).isSome = true := by
  induction fields with
  | nil => simp [insertFields]
  | cons entry fields ih =>
    intro hash hfield
    refine ih _ ?_
    rw [lookup_insert_eq]
    by_cases hentry : field = entry.1
    · simp [hentry]
    · simpa [hentry] using hfield

theorem lookup_takeFields (fields : List β) (field : β) : ∀ hash,
    (takeFields hash fields).2.lookup field = (eraseFields hash fields).lookup field := by
  induction fields with
  | nil => exact fun _ => rfl
  | cons first fields ih => exact fun hash => ih _

theorem mem_takeFields (fields : List β) : ∀ {hash : FinMap β β},
    field ∈ fields → (hash.lookup field).isSome = true → field ∈ (takeFields hash fields).1 := by
  induction fields with
  | nil => simp
  | cons first fields ih =>
    intro hash hfield hstored
    unfold takeFields
    by_cases hfirst : field = first
    · subst hfirst
      simp [hstored]
    · have hkept : ((hash.erase first).lookup field).isSome = true := by
        rwa [lookup_erase_eq, if_neg hfirst]
      have hrest := ih (by simpa [hfirst] using hfield) hkept
      split_ifs
      · exact List.mem_cons_of_mem _ hrest
      · exact hrest

section

variable (h : Sound b)
include h

/-- A field is written after the clean-up, and may lose its deadline. -/
theorem insert_keeps (hc : Cleaned key b b₁)
    (hlookup : b₁.hashes.lookup key = some hash) (field value : β) (fields : List β) :
    Keeps b
      ((b₁.putSlot key .hash (hash.insert field value)).clearHashFieldTtls key fields) := by
  refine hc.write hlookup _ fields fun other _ hdated => ?_
  rw [lookup_insert_eq]
  split_ifs
  · rfl
  · exact (hc.fields h).field_stored hlookup hdated

theorem createHash_writes (hc : Cleaned key b b₁)
    (hnone : b₁.hashes.lookup key = none) (hnon : ¬b₁.hasNon key .hash = true) :
    Writes key b true (b₁.putSlot key .hash hash) := by
  obtain rfl := hc.eq_of_none hnone
  have hfree := not_containsObject hnone (by simpa using hnon)
  exact ⟨.single (.create _ hfree), .created h.wellFormed hfree _⟩

theorem hset_writes {b₀ : RedisObjectBucket β σ} (hc : Cleaned key b b₀)
    (field value : β) (nowMs : ℕ) : Wrote key b (b₀.hset key field value nowMs) := by
  replace hc := hc.trans (removeExpiredHashFieldsForWrite_cleaned (hc.fields h) key nowMs)
  unfold hset
  generalize b₀.removeExpiredHashFieldsForWrite key nowMs = b₁ at hc ⊢
  dsimp only
  cases hlookup : b₁.hashes.lookup key with
  | some => exact (insert_keeps h hc hlookup field value [field]).writes h
  | none =>
    split_ifs with hnon
    · exact hc.untouched h hlookup
    · exact createHash_writes h hc hlookup hnon

theorem hsetCreate_edits (key field value : β) (nowMs : ℕ) (stringExists : Bool) :
    Edits b (orCreate (b.hsetExistingOrWrongtypeHashed key field value nowMs) stringExists
      fun b => b.hsetNewUncheckedHashed key field value) := by
  have hc := removeExpiredHashFieldsForWrite_cleaned h.fields key nowMs
  unfold hsetExistingOrWrongtypeHashed
  generalize b.removeExpiredHashFieldsForWrite key nowMs = b₁ at hc ⊢
  dsimp only
  cases hlookup : b₁.hashes.lookup key with
  | some => exact (insert_keeps h hc hlookup field value [field]).edits
  | none =>
    split_ifs with hnon
    · rw [hc.eq_of_none hlookup]
      exact .refl
    · simp only [orCreate]
      split_ifs
      · rw [hc.eq_of_none hlookup]
      · exact (createHash_writes h hc hlookup hnon).edits

theorem hsetMany_writes (key : β) (fields : List (β × β)) (nowMs : ℕ) :
    Wrote key b (b.hsetMany key fields nowMs) := by
  have hc := removeExpiredHashFieldsForWrite_cleaned h.fields key nowMs
  unfold hsetMany
  cases hfields : fields.isEmpty with
  | true => exact h.writes_refl
  | false =>
    generalize b.removeExpiredHashFieldsForWrite key nowMs = b₁ at hc ⊢
    simp only [Bool.false_eq_true, if_false]
    cases hlookup : b₁.hashes.lookup key with
    | some hash =>
      exact (hc.write hlookup _ _ fun field _ hdated => lookup_insertFields_isSome fields hash
        (.inr ((hc.fields h).field_stored hlookup hdated))).writes h
    | none =>
      split_ifs with hnon
      · exact hc.untouched h hlookup
      · exact createHash_writes h hc hlookup hnon

/-- After the clean-up of a removal, the hash is as it was or is gone. -/
theorem afterRemoval_writes (hc : Cleaned key b b₁)
    {rest : RedisObjectBucket β σ → BucketWrite β σ} {reply : RedisObjectResult β}
    {write : BucketWrite β σ}
    (hwrite : write = match b₁.removeHashIfEmpty key with
      | (true, b) => (⟨reply, true, b⟩ : BucketWrite β σ)
      | (false, b) => rest b)
    (hrest : Wrote key b (rest b₁)) : Wrote key b write := by
  subst hwrite
  rcases removeHashIfEmpty_cases b₁ key with hkeep | ⟨hheld, htaken⟩
  · rw [hkeep]
    exact hrest
  · rw [htaken]
    exact hc.remove h hheld

theorem hdel_writes (key field : β) (nowMs : ℕ) :
    Wrote key b (b.hdel key field nowMs) := by
  have hc := removeExpiredHashFieldsForWrite_cleaned h.fields key nowMs
  unfold hdel
  generalize b.removeExpiredHashFieldsForWrite key nowMs = b₁ at hc ⊢
  refine afterRemoval_writes h hc rfl ?_
  cases hlookup : b₁.hashes.lookup key with
  | some hash =>
    have hstored (other : β) (hdated : (b₁.hashFieldExpiry key other).isSome = true) :
        (hash.lookup other).isSome = true := (hc.fields h).field_stored hlookup hdated
    cases hempty : (hash.erase field).keys.isEmpty with
    | true =>
      simp only [hempty, if_true]
      exact hc.remove h (holds_of_lookup hlookup)
    | false =>
      simp only [hempty, Bool.false_eq_true, if_false]
      split_ifs with hremoved
      · refine (hc.write hlookup _ [field] fun other hother hdated => ?_).writes h
        rw [lookup_erase_eq, if_neg (by simpa using hother)]
        exact hstored other hdated
      · refine (hc.write hlookup _ [] fun other _ hdated => ?_).writes h
        rw [lookup_erase_eq, if_neg]
        · exact hstored other hdated
        · rintro rfl
          exact hremoved (hstored other hdated)
  | none =>
    rw [hc.eq_of_none hlookup]
    split_ifs <;> exact h.writes_refl

theorem hdelMany_writes (key : β) (fields : List β) (nowMs : ℕ) :
    Wrote key b (b.hdelMany key fields nowMs) := by
  have hc := removeExpiredHashFieldsForWrite_cleaned h.fields key nowMs
  unfold hdelMany
  generalize b.removeExpiredHashFieldsForWrite key nowMs = b₁ at hc ⊢
  refine afterRemoval_writes h hc rfl ?_
  cases hlookup : b₁.hashes.lookup key with
  | some =>
    dsimp only
    split_ifs
    · exact hc.remove h (holds_of_lookup hlookup)
    · refine (hc.write hlookup _ _ fun field hfield hdated => ?_).writes h
      have hstored := (hc.fields h).field_stored hlookup hdated
      rw [lookup_takeFields, lookup_eraseFields, if_neg]
      · exact hstored
      · exact fun hmem => hfield (mem_takeFields fields hmem hstored)
  | none =>
    rw [hc.eq_of_none hlookup]
    split_ifs <;> exact h.writes_refl

theorem hsetnx_writes (key field value : β) (nowMs : ℕ) :
    Wrote key b (b.hsetnx key field value nowMs) := by
  have hc := removeExpiredHashFieldsForWrite_cleaned h.fields key nowMs
  unfold hsetnx
  generalize b.removeExpiredHashFieldsForWrite key nowMs = b₁ at hc ⊢
  dsimp only
  cases hlookup : b₁.hashes.lookup key with
  | some =>
    dsimp only
    split_ifs
    · exact (hc.keeps h.fields).writes h
    · exact (insert_keeps h hc hlookup field value []).writes h
  | none =>
    split_ifs with hnon
    · exact hc.untouched h hlookup
    · exact createHash_writes h hc hlookup hnon

theorem hincrWith_writes {ν : Type} (key field : β) (nowMs setNowMs : ℕ)
    (parse : β → Option ν) (notANumber : String)
    (next : Option ν → Except String (β × RedisObjectResult β)) :
    Wrote key b (b.hincrWith key field nowMs setNowMs parse notANumber next) := by
  unfold hincrWith
  extract_lets b₁ store
  have hc : Cleaned key b b₁ := removeExpiredHashFieldsForWrite_cleaned h.fields key nowMs
  have hkept : Writes key b false b₁ := (hc.keeps h.fields).writes h
  have hstore (current : Option ν) : Wrote key b (store current) := by
    unfold store
    cases next current with
    | error => exact hkept
    | ok pair =>
      have hset := hset_writes h hc field pair.1 setNowMs
      dsimp only
      split <;> exact hset
  split
  next hash _ =>
    cases fieldNumber hash field parse with
    | error => exact hkept
    | ok current => exact hstore current
  next =>
    split_ifs
    · exact hkept
    · exact hstore none

end

variable (key hash) in
theorem expireFields_keeps (expireAtMs : ℕ)
    (cond : HashFieldExpireCond) (nowMs : ℕ) (fields : List β) :
    ∀ b : RedisObjectBucket β σ, b.hashes.lookup key = some hash →
      Keeps b (expireFields key hash expireAtMs cond nowMs b fields).2.2 ∧
        (expireFields key hash expireAtMs cond nowMs b fields).2.2.hashes.lookup key =
          some hash := by
  induction fields with
  | nil => exact fun b hlookup => ⟨.refl b, hlookup⟩
  | cons field fields ih =>
    intro b hlookup
    unfold expireFields
    split_ifs with hgone
    · exact ih b hlookup
    · exact ih b hlookup
    · exact ih b hlookup
    · obtain ⟨hrest, hstill⟩ := ih (b.setHashFieldExpiry key field expireAtMs) hlookup
      refine ⟨.trans ⟨.single (.date hlookup ?_ expireAtMs),
        setHashFieldExpiry_kept b key field expireAtMs⟩ hrest, hstill⟩
      simp only [Bool.or_eq_true, not_or] at hgone
      simpa [Option.isSome_iff_ne_none] using hgone.1

variable (key hash nowMs) in
theorem persistFields_keeps (fields : List β) :
    ∀ b : RedisObjectBucket β σ, Keeps b (persistFields key hash nowMs b fields).2 := by
  induction fields with
  | nil => exact .refl
  | cons field fields ih =>
    intro b
    unfold persistFields
    split_ifs
    · exact ih b
    · exact .trans ⟨.single (.clear key field), clearHashFieldTtl_kept b key field⟩ (ih _)
    · exact ih b

variable (key hash) in
theorem Keeps.dates (expireAtMs : ℕ) (fields : List β) :
    ∀ b : RedisObjectBucket β σ, b.hashes.lookup key = some hash →
      (∀ field ∈ fields, (hash.lookup field).isSome = true) →
      Keeps b (b.setHashFieldExpiries key fields expireAtMs) := by
  induction fields with
  | nil => exact fun b _ _ => .refl b
  | cons field fields ih =>
    intro b hlookup hall
    refine .trans ⟨.single (.date hlookup (hall field List.mem_cons_self) expireAtMs),
      setHashFieldExpiry_kept b key field expireAtMs⟩ (ih _ hlookup fun other hother => ?_)
    exact hall other (List.mem_cons_of_mem _ hother)

section

variable (h : Sound b)
include h

theorem deleteHashFields_writes (hlookup : b.hashes.lookup key = some hash)
    (toDelete : List β) : Writes key b (b.deleteHashFields key toDelete).1
      (b.deleteHashFields key toDelete).2 := by
  have hc : Cleaned key b b := .inl rfl
  have hheld := holds_of_lookup hlookup
  unfold deleteHashFields
  split_ifs
  · exact h.writes_refl
  · simp only [hlookup]
    split_ifs
    · have hclears : Keeps b _ := Keeps.clears key toDelete b
      have hstill : (b.clearHashFieldTtls key toDelete).slots.holds .hash key = true := by
        rwa [clearHashFieldTtls_slots]
      rw [clears_putSlot, removeSlot_putSlot hstill]
      exact hclears.andThen ⟨.single (.remove hstill),
        .removed (hclears.kept.wellFormed h.wellFormed) hstill⟩
    · refine (hc.write hlookup _ toDelete fun field hfield hdated => ?_).writes h
      rw [lookup_eraseFields, if_neg hfield]
      exact h.fields.field_stored hlookup hdated

theorem onLiveHash_writes (key : β) (missing : RedisObjectResult β)
    (nowMs : ℕ) {body : RedisObjectBucket β σ → FinMap β β → BucketWrite β σ}
    (hbody : ∀ b' hash, Sound b' → b'.hashes.lookup key = some hash →
      Wrote key b' (body b' hash)) :
    Wrote key b (b.onLiveHash key missing nowMs body) := by
  have hc := removeExpiredHashFields_cleaned h.fields key nowMs
  have hcleaned := removeHashIfEmpty_edits hc h
  unfold onLiveHash
  split
  · split_ifs <;> exact h.writes_refl
  · unfold removeExpiredHashIfEmpty
    rcases removeHashIfEmpty_cases (b.removeExpiredHashFields key nowMs) key with
      hsame | ⟨hheld, hgone⟩
    · rw [hsame] at hcleaned ⊢
      have hkeeps : Keeps b _ := ⟨hcleaned, hc.kept⟩
      dsimp only
      cases hlookup : (b.removeExpiredHashFields key nowMs).hashes.lookup key with
      | none => exact hkeeps.writes h
      | some => exact hkeeps.andThen (hbody _ _ (hcleaned.sound h) hlookup)
    · rw [hgone]
      exact hc.remove h hheld

section

variable (key : β) (fields : List β)

theorem hashFieldExpire_writes (expireAtMs : ℕ) (cond : HashFieldExpireCond) (nowMs : ℕ) :
    Wrote key b (b.hashFieldExpire key fields expireAtMs cond nowMs) := by
  refine onLiveHash_writes h key _ nowMs fun b' hash h' hlookup => ?_
  obtain ⟨hdated, hstill⟩ : Keeps b' _ ∧ _ :=
    expireFields_keeps key hash expireAtMs cond nowMs fields b' hlookup
  exact hdated.andThen (deleteHashFields_writes (hdated.edits.sound h') hstill _)

theorem hashFieldPersist_writes (nowMs : ℕ) :
    Wrote key b (b.hashFieldPersist key fields nowMs) :=
  onLiveHash_writes h key _ nowMs fun b' hash h' _ =>
    (persistFields_keeps key hash nowMs fields b').writes h'

theorem hashFieldGetdel_writes (nowMs : ℕ) :
    Wrote key b (b.hashFieldGetdel key fields nowMs) :=
  onLiveHash_writes h key _ nowMs fun _ _ h' hlookup => deleteHashFields_writes h' hlookup _

theorem hashFieldGetex_writes (action : HashFieldGetExpireAction) (nowMs : ℕ) :
    Wrote key b (b.hashFieldGetex key fields action nowMs) := by
  refine onLiveHash_writes h key _ nowMs fun b' hash h' hlookup => ?_
  cases action with
  | keep => exact h'.writes_refl
  | persist => exact (Keeps.clears key _ b').writes h'
  | expireAt expireAtMs =>
    dsimp only
    split_ifs
    · exact deleteHashFields_writes h' hlookup _
    · refine (Keeps.dates key hash expireAtMs _ b' hlookup ?_).writes h'
      exact fun _ hfield => (List.mem_filter.mp hfield).2

end

/-- The fields of `HSETEX` are in the hash before their deadlines are looked at. -/
theorem setexFields_edits {key : β} {hash : FinMap β β} {created : Bool} {fields : List (β × β)}
    (hfields : fields.isEmpty = false)
    (hput : Edits b (b.putSlot key .hash (insertFields hash fields).2))
    (action : HashFieldSetExpireAction) (nowMs : ℕ) :
    Edits b (b.setexFields key hash created fields action nowMs).bucket := by
  have hself := (hashes_putSlot b key (insertFields hash fields).2 key).trans (if_pos rfl)
  cases action with
  | keepTtl => exact hput
  | clear => exact hput.trans (Keeps.clears key _ _).edits
  | expireAt expireAtMs =>
    have hdelete := (deleteHashFields_writes (hput.sound h) hself (fields.map Prod.fst)).edits
    have hnames : (fields.map Prod.fst).isEmpty = false := by simpa using hfields
    simp only [deleteHashFields, hnames, hself, Bool.false_eq_true, if_false] at hdelete
    unfold setexFields
    by_cases hpassed : expireAtMs ≤ nowMs
    · simp only [hpassed, if_true]
      split_ifs at hdelete ⊢
      · exact hput.trans hdelete
      · exact hput.trans hdelete
    · simp only [hpassed, if_false]
      exact hput.trans (Keeps.dates key _ expireAtMs _ _ hself fun _ hfield =>
        lookup_insertFields_isSome fields hash (.inl hfield)).edits

theorem hashFieldSetex_edits (key : β) (fields : List (β × β)) (condition : HashFieldSetCondition)
    (action : HashFieldSetExpireAction) (nowMs : ℕ) :
    Edits b (b.hashFieldSetex key fields condition action nowMs).bucket := by
  have hcleaned := removeExpiredHashIfEmpty_edits h key nowMs
  unfold hashFieldSetex
  cases hfields : fields.isEmpty with
  | true => exact .refl
  | false =>
    generalize (b.removeExpiredHashIfEmpty key nowMs).2 = b₁ at hcleaned ⊢
    have h₁ := hcleaned.sound h
    have hc : Cleaned key b₁ b₁ := .inl rfl
    refine hcleaned.trans ?_
    simp only [Bool.false_eq_true, if_false]
    cases hlookup : b₁.hashes.lookup key with
    | some hash =>
      dsimp only
      split_ifs
      · exact .refl
      · refine setexFields_edits h₁ hfields (hc.write hlookup _ [] ?_).edits action nowMs
        exact fun field _ hdated => lookup_insertFields_isSome fields hash
          (.inr (h₁.fields.field_stored hlookup hdated))
    | none =>
      split_ifs with hnon
      · exact .refl
      · exact .refl
      · exact setexFields_edits h₁ hfields (createHash_writes h₁ hc hlookup hnon).edits action nowMs

theorem zaddCond_writes (key : β) (arith : ScoreArithmetic β σ) (flags : ZAddFlags) (score : σ)
    (member : β) :
    Wrote key b (b.zaddCond key arith flags score member) := by
  unfold zaddCond
  cases hnon : b.hasNon key .zset with
  | true => exact h.writes_refl
  | false =>
    -- the entry goes into the slot of the key, and the flag says whether that slot is new
    have hput (zset : ScoreList σ β) :
        Writes key b (b.zsets.lookup key).isNone (b.putSlot key .zset zset) := by
      cases hlookup : b.zsets.lookup key with
      | some => exact ⟨.single (.write _ (by decide) hlookup),
          .kept h.wellFormed (putSlot_kept (holds_of_lookup hlookup) zset)⟩
      | none =>
        have hfree : b.containsObject key = false := not_containsObject hlookup hnon
        exact ⟨.single (.create _ hfree), .created h.wellFormed hfree _⟩
    simp only [Bool.false_eq_true, if_false]
    split_ifs
    · exact h.writes_refl
    · exact h.writes_refl
    · exact h.writes_refl
    · exact hput _

theorem pushListExistingHashed_writes (key : β) (values : List β)
    (front : Bool) : Wrote key b (b.pushListExistingHashed key values front) := by
  unfold pushListExistingHashed
  split_ifs
  · exact h.writes_refl
  · exact editSlot_writes h key (by decide) _ _

theorem popListCount_writes (key : β) (count : ℕ) (front : Bool) :
    Wrote key b (b.popListCount key count front) := by
  unfold popListCount
  split_ifs
  · exact h.writes_refl
  · exact shrinkSlot_writes h key (by decide) _ _

end

variable (b key) in
theorem pushCreate_edits (values : List β) (front stringExists : Bool) :
    Edits b (orCreate (b.pushListExistingOrWrongtypeHashed key values front) stringExists
      fun b => b.pushListNewUncheckedHashed key values front) := by
  unfold pushListExistingOrWrongtypeHashed
  split_ifs
  · exact .refl
  · exact editExisting_edits b key (by decide) _ stringExists _ _

variable (b key) in
theorem saddCreate_edits (members : List β) (stringExists : Bool) :
    Edits b (orCreate (b.saddExistingOrWrongtypeHashed key members) stringExists
      fun b => b.saddNewUncheckedHashed key members) := by
  unfold saddExistingOrWrongtypeHashed
  split_ifs
  · exact .refl
  · exact editExisting_edits b key (by decide) _ stringExists _ _

end RedisObjectBucket

namespace RedisObjectBucket

variable {b : RedisObjectBucket β σ} {arith : ScoreArithmetic β σ}

/-- Every write but `HSETEX` reports its flag rightly. -/
theorem objectWrite_writes (h : Sound b) (key : β) (nowMs setNowMs : ℕ) {command : ObjectWrite β σ}
    (hsetex : command.isSetex = false) :
    Wrote key b (command.run arith key nowMs setNowMs b) := by
  cases command with
  | hsetMany => exact hsetMany_writes h ..
  | hdel => exact hdel_writes h ..
  | hdelMany => exact hdelMany_writes h ..
  | hsetnx => exact hsetnx_writes h ..
  | hincrby | hincrbyfloat => exact hincrWith_writes h ..
  | hashFieldExpire => exact hashFieldExpire_writes h ..
  | hashFieldPersist => exact hashFieldPersist_writes h ..
  | hashFieldGetdel => exact hashFieldGetdel_writes h ..
  | hashFieldGetex => exact hashFieldGetex_writes h ..
  | hashFieldSetex => cases hsetex
  | popList | lrem | ltrim | srem | spop | zrem | zremMany | zpop =>
    exact shrinkSlot_writes h key (by decide) _ _
  | popListCount => exact popListCount_writes h ..
  | lset | linsert => exact editSlot_writes h key (by decide) _ _
  | zaddCond | zincrby => exact zaddCond_writes h _ arith ..

theorem run_edits (h : Sound b) (op : BucketOp β σ) : Edits b (b.run arith op) := by
  cases op with
  | deleteAny key => exact deleteAny_edits b key
  | deleteExpired => exact deleteExpired_edits b ..
  | removeExpiredHashIfEmpty => exact removeExpiredHashIfEmpty_edits h ..
  | purge => exact purge_edits h ..
  | purgeForWrite => exact purgeForWrite_edits h ..
  | expire => exact expire_edits h ..
  | persist => exact persist_edits h ..
  | ttlMillis => exact ttlMillis_edits h ..
  | insertValue => exact insertValue_edits h ..
  | hset => exact (hset_writes h (.inl rfl) ..).edits
  | pushListExisting => exact (pushListExistingHashed_writes h ..).edits
  | write key command =>
    cases command with
    | hashFieldSetex => exact hashFieldSetex_edits h ..
    | _ => exact (objectWrite_writes h key _ _ rfl).edits
  | create key command =>
    cases command with
    | hset => exact hsetCreate_edits h ..
    | pushList => exact pushCreate_edits b ..
    | sadd => exact saddCreate_edits b ..
    | zadd => exact editExisting_edits b key (by decide) _ _ _ _

theorem run_sound (h : Sound b) (op : BucketOp β σ) : Sound (b.run arith op) :=
  Edits.sound (run_edits h op) h

end RedisObjectBucket
end ShardKv
