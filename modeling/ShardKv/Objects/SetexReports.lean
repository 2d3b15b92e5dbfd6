import ShardKv.Objects.ObjectReports

/-!
# When `hash_field_setex` reports rightly

The write first drops passed fields and gives up a hash that they leave empty.
It then works on whatever is stored now, and a deadline that has already passed
takes its own fields out again. Its one flag cannot tell a hash that appeared
from one that came and went, nor one that was replaced from one that was kept.
The lemmas below say when the flag is right, in terms of the bucket before.
-/
namespace ShardKv

open SlotTable List AList
variable {β σ : Type} [LinearOrder β] [LinearOrder σ]

/-- The write carries a deadline that lies at or before the clock reading. -/
def HashFieldSetExpireAction.passed : HashFieldSetExpireAction → ℕ → Bool
  | .expireAt expireAtMs, nowMs => expireAtMs ≤ nowMs
  | _, _ => false

namespace RedisObjectBucket

variable {b : RedisObjectBucket β σ} {key : β} {nowMs : ℕ}

theorem keys_isEmpty_iff {ν : Type} {m : FinMap β ν} :
    m.keys.isEmpty = true ↔ ∀ field, m.lookup field = none := by
  simp only [List.isEmpty_iff, lookup_eq_none]
  exact List.eq_nil_iff_forall_not_mem

theorem lookup_eraseFields (fields : List β) (field : β) : ∀ hash,
    (eraseFields hash fields).lookup field = if field ∈ fields then none else hash.lookup field := by
  induction fields with
  | nil => simp [eraseFields]
  | cons first fields ih =>
    intro hash
    change (eraseFields (hash.erase first) fields).lookup field = _
    rw [ih, FinMap.lookup_erase_eq]
    by_cases hfirst : field = first <;> simp [hfirst]

theorem lookup_insertFields_of_not_mem {field : β} (fields : List (β × β)) :
    ∀ hash, field ∉ fields.map Prod.fst →
      (insertFields hash fields).2.lookup field = hash.lookup field := by
  induction fields with
  | nil => simp [insertFields]
  | cons entry fields ih =>
    intro hash hfield
    simp only [map_cons, mem_cons, not_or] at hfield
    simp only [insertFields, ih _ hfield.2, FinMap.lookup_insert_eq, if_neg hfield.1]

/-- Taking out again what was put into an empty hash leaves it empty. -/
theorem eraseFields_insertFields_isEmpty (fields : List (β × β)) :
    (eraseFields (insertFields ∅ fields).2 (fields.map Prod.fst)).keys.isEmpty = true := by
  rw [keys_isEmpty_iff]
  intro field
  rw [lookup_eraseFields]
  split_ifs with hfield
  · rfl
  · rw [lookup_insertFields_of_not_mem fields ∅ hfield]
    rfl

variable (b) in
theorem hashFieldExpiry_clear (key cleared field : β) :
    (b.clearHashFieldTtl key cleared).hashFieldExpiry key field =
      if field = cleared then none else b.hashFieldExpiry key field := by
  unfold clearHashFieldTtl hashFieldExpiry
  cases hsubmap : b.hashFieldExpireAtMs.lookup key with
  | none => simp [hsubmap]
  | some submap =>
    have hlookup := FinMap.lookup_erase_eq submap cleared field
    dsimp only
    split_ifs with hempty hfield hfield
    · rw [lookup_erase]
      rfl
    · rw [keys_isEmpty_iff.mp hempty field, if_neg hfield] at hlookup
      rw [lookup_erase]
      exact hlookup
    · rw [lookup_insert, Option.bind_some, hlookup, if_pos hfield]
    · rw [lookup_insert, Option.bind_some, hlookup, if_neg hfield]
      rfl

theorem hashFieldExpiry_clears (key field : β) (fields : List β) :
    ∀ b : RedisObjectBucket β σ, (b.clearHashFieldTtls key fields).hashFieldExpiry key field =
      if field ∈ fields then none else b.hashFieldExpiry key field := by
  induction fields with
  | nil => simp [clearHashFieldTtls]
  | cons cleared fields ih =>
    intro b
    change ((b.clearHashFieldTtl key cleared).clearHashFieldTtls key fields).hashFieldExpiry _ _ = _
    rw [ih, hashFieldExpiry_clear]
    by_cases hcleared : field = cleared <;> simp [hcleared]

theorem mem_expiredHashFields {field : β} :
    field ∈ b.expiredHashFields key nowMs ↔ b.hashFieldIsExpired key field nowMs = true := by
  unfold expiredHashFields hashFieldIsExpired hashFieldExpiry
  cases b.hashFieldExpireAtMs.lookup key with
  | none => simp
  | some ttls =>
    simp only [mem_map, mem_filter, decide_eq_true_eq, Option.bind_some, Option.any_eq_true]
    constructor
    · rintro ⟨⟨f, expireAtMs⟩, ⟨hmem, hle⟩, rfl⟩
      exact ⟨expireAtMs, mem_lookup_iff.mpr hmem, hle⟩
    · rintro ⟨expireAtMs, hlookup, hle⟩
      exact ⟨⟨field, expireAtMs⟩, ⟨mem_lookup_iff.mp hlookup, hle⟩, rfl⟩

variable (b) in
theorem clearHashFieldTtl_slots (key field : β) :
    (b.clearHashFieldTtl key field).slots = b.slots := by
  unfold clearHashFieldTtl
  split <;> rfl

theorem clearHashFieldTtls_slots (key : β) (fields : List β) :
    ∀ b : RedisObjectBucket β σ, (b.clearHashFieldTtls key fields).slots = b.slots := by
  induction fields with
  | nil => exact fun _ => rfl
  | cons field fields ih => exact fun b => (ih _).trans (clearHashFieldTtl_slots b key field)

variable (b key nowMs) in
/-- What is left of a hash once its passed fields are dropped. -/
theorem lookup_removeExpiredHashFields : (b.removeExpiredHashFields key nowMs).hashes.lookup key =
      (b.hashes.lookup key).map fun hash => eraseFields hash (b.expiredHashFields key nowMs) := by
  unfold removeExpiredHashFields
  dsimp only
  split_ifs with hnone
  · rw [List.isEmpty_iff.mp hnone]
    cases b.hashes.lookup key <;> rfl
  · unfold hashes
    rw [clearHashFieldTtls_slots]
    cases hlookup : (b.slots .hash).lookup key with
    | none => simp [hlookup]
    | some hash => simp [putSlot, SlabMap.lookup_insert_eq]

variable (b key nowMs) in
theorem hashFieldExpiry_removeExpired (field : β) :
    (b.removeExpiredHashFields key nowMs).hashFieldExpiry key field =
      if b.hashFieldIsExpired key field nowMs then none else b.hashFieldExpiry key field := by
  have hmem : field ∈ b.expiredHashFields key nowMs ↔ b.hashFieldIsExpired key field nowMs = true :=
    mem_expiredHashFields
  unfold removeExpiredHashFields
  dsimp only
  split_ifs with hnone hexpired hexpired
  · rw [List.isEmpty_iff.mp hnone] at hmem
    exact absurd (hmem.mpr hexpired) not_mem_nil
  · rfl
  · rw [hashFieldExpiry_clears, if_pos (hmem.mpr hexpired)]
  · rw [hashFieldExpiry_clears, if_neg (mt hmem.mp hexpired)]
    split <;> rfl

/-- A hash is alive while it has a field that no passed deadline covers. -/
theorem hashHasLiveFields_iff :
    b.hashHasLiveFields key nowMs = true ↔ ∃ hash, b.hashes.lookup key = some hash ∧
      ∃ field, (hash.lookup field).isSome = true ∧ b.hashFieldIsExpired key field nowMs = false := by
  unfold hashHasLiveFields
  cases hlookup : b.hashes.lookup key with
  | none => simp
  | some hash =>
    have hkeys : ∀ field, field ∈ hash.keys ↔ (hash.lookup field).isSome = true := fun field => by
      rw [AList.lookup_isSome, AList.mem_keys]
    dsimp only
    split_ifs with hempty hnone
    · have hall := keys_isEmpty_iff.mp hempty
      simp [hall]
    · have hlive : ∀ field, b.hashFieldIsExpired key field nowMs = false := by
        intro field
        simp [hashFieldIsExpired, hashFieldExpiry, Option.isNone_iff_eq_none.mp hnone]
      obtain ⟨field, hfield⟩ := exists_mem_of_ne_nil _ (mt List.isEmpty_iff.mpr hempty)
      exact iff_of_true rfl ⟨hash, rfl, field, (hkeys field).mp hfield, hlive field⟩
    · simp [any_eq_true, hkeys]

/-- Dropping passed fields leaves a stored hash empty exactly when none of its fields is alive. -/
theorem eraseFields_expired_isEmpty {hash : FinMap β β} (hlookup : b.hashes.lookup key = some hash) :
    (eraseFields hash (b.expiredHashFields key nowMs)).keys.isEmpty = true ↔
      b.hashHasLiveFields key nowMs = false := by
  rw [keys_isEmpty_iff, ← Bool.not_eq_true, hashHasLiveFields_iff]
  simp only [lookup_eraseFields, mem_expiredHashFields]
  constructor
  · rintro hall ⟨hash', hlookup', field, hfield, hlive⟩
    obtain rfl : hash = hash' := Option.some.inj (hlookup.symm.trans hlookup')
    have hgone := hall field
    simp [hlive] at hgone
    simp [hgone] at hfield
  · intro hdead field
    split_ifs with hexpired
    · rfl
    · by_contra hsome
      exact hdead ⟨hash, hlookup, field, Option.isSome_iff_ne_none.mpr hsome, by simpa using hexpired⟩

variable (b key nowMs) in
/-- The clean-up takes a stored hash without live fields away, and moves no key otherwise. -/
theorem removeExpiredHashIfEmpty_eq : b.removeExpiredHashIfEmpty key nowMs =
      if b.slots.holds .hash key && !b.hashHasLiveFields key nowMs then
        (true, (b.removeExpiredHashFields key nowMs).removeSlot key .hash)
      else (false, b.removeExpiredHashFields key nowMs) := by
  have hleft := lookup_removeExpiredHashFields b key nowMs
  unfold removeExpiredHashIfEmpty removeHashIfEmpty
  rw [hleft]
  cases hlookup : b.hashes.lookup key with
  | none =>
    have hheld : b.slots.holds .hash key = false := not_holds_of_lookup hlookup
    simp [hheld]
  | some hash =>
    have hheld : b.slots.holds .hash key = true := holds_of_lookup hlookup
    have hempty : (eraseFields hash (b.expiredHashFields key nowMs)).keys.isEmpty = true ↔
        b.hashHasLiveFields key nowMs = false := eraseFields_expired_isEmpty hlookup
    simp only [Option.map_some, hempty, hheld, Bool.true_and, Bool.not_eq_true']

variable (b key) in
/-- Fields that pass between two readings count as passed at the later one. -/
theorem hashHasLiveFields_removeExpired (nowMs laterMs : ℕ) :
    (b.removeExpiredHashFields key nowMs).hashHasLiveFields key laterMs =
      b.hashHasLiveFields key (max nowMs laterMs) := by
  have hboth : ∀ field, b.hashFieldIsExpired key field (max nowMs laterMs) = true ↔
      b.hashFieldIsExpired key field nowMs = true ∨
        b.hashFieldIsExpired key field laterMs = true := by
    intro field
    unfold hashFieldIsExpired
    cases b.hashFieldExpiry key field <;> simp
  rw [Bool.eq_iff_iff, hashHasLiveFields_iff, hashHasLiveFields_iff, lookup_removeExpiredHashFields]
  cases b.hashes.lookup key with
  | none => simp
  | some hash =>
    simp only [Option.map_some, Option.some.injEq, exists_eq_left', lookup_eraseFields,
      mem_expiredHashFields, ← Bool.not_eq_true, hboth]
    apply exists_congr
    intro field
    by_cases hnow : b.hashFieldIsExpired key field nowMs = true
    · simp [hnow]
    · have hlater : (b.removeExpiredHashFields key nowMs).hashFieldIsExpired key field laterMs =
          b.hashFieldIsExpired key field laterMs := by
        unfold hashFieldIsExpired
        rw [hashFieldExpiry_removeExpired, if_neg hnow]
      simp [hnow, hlater]

theorem hasExpirations_of_expired (h : b.objectIsExpired key nowMs = true) :
    b.hasExpirations = true := by
  unfold hasExpirations
  by_contra hnone
  have hempty : b.expireAtMs.keys.isEmpty = true := by simpa using hnone
  simp [objectIsExpired, keys_isEmpty_iff.mp hempty] at h

theorem hasNon_eq_false {kind : ObjectKind} (hb : b.slots.Exclusive)
    (hheld : b.slots.holds kind key = true) : b.hasNon key kind = false := by
  simp only [hasNon, any_eq_false, mem_filter, decide_eq_true_eq]
  intro other hother hother'
  exact hother.2 (hb key other kind hother' hheld)

/-- What the clean-up before a write leaves: nothing of an object that is no longer alive, and
otherwise the same object without its passed fields. -/
theorem purgeForWrite_spec (hb : b.WellFormed) (key : β) (nowMs : ℕ) :
    b.containsLiveObject key nowMs = false ∧
        (b.purgeForWrite key nowMs).2.containsObject key = false ∨
      b.containsLiveObject key nowMs = true ∧
        (b.purgeForWrite key nowMs).2 = b.removeExpiredHashFields key nowMs ∧
        b.containsObject key = true := by
  have hkept := removeExpiredHashFields_kept b key nowMs
  cases hexpired : b.objectIsExpired key nowMs with
  | true =>
    obtain ⟨kind, hheld, hdelete⟩ := deleteAny_of_stored (containsObject_of_expired hb hexpired)
    have hpurged : (b.purgeForWrite key nowMs).2 = b.removeSlot key kind := by
      simp [purgeForWrite, hasExpirations_of_expired hexpired, deleteExpired, hexpired, hdelete,
        orElse]
    refine .inl ⟨by simp [containsLiveObject, hexpired], ?_⟩
    rw [hpurged, containsObject_eq_false]
    exact hb.exclusive.not_holds_drop hheld
  | false =>
    have hpurged : b.purgeForWrite key nowMs = b.removeExpiredHashIfEmpty key nowMs := by
      simp [purgeForWrite, deleteExpired, hexpired, orElse]
    have hlive : b.containsLiveObject key nowMs =
        (b.hashHasLiveFields key nowMs || b.hasNon key .hash) := by
      simp [containsLiveObject, hexpired]
    rw [hpurged, removeExpiredHashIfEmpty_eq, hlive]
    cases hheld : b.slots.holds .hash key with
    | true =>
      have hnon : b.hasNon key .hash = false := hasNon_eq_false hb.exclusive hheld
      cases hfields : b.hashHasLiveFields key nowMs with
      | true => exact .inr ⟨rfl, rfl, containsObject_of_holds hheld⟩
      | false =>
        refine .inl ⟨by simp [hnon], containsObject_eq_false.mpr ?_⟩
        apply (hkept.wellFormed hb).exclusive.not_holds_drop
        rw [hkept.holds]
        exact hheld
    | false =>
      have hfields : b.hashHasLiveFields key nowMs = false := by
        simp only [holds, Option.isSome_eq_false_iff, Option.isNone_iff_eq_none] at hheld
        simp [hashHasLiveFields, hashes, hheld]
      have hsame : b.containsObject key = b.hasNon key .hash := by
        simp [b.containsObject_eq_or key .hash, hheld]
      cases hnon : b.hasNon key .hash with
      | true => exact .inr ⟨by simp, rfl, hsame.trans hnon⟩
      | false =>
        refine .inl ⟨by simp [hfields], ?_⟩
        exact (hkept.containsObject key).trans (hsame.trans hnon)

variable {b' : RedisObjectBucket β σ}

theorem clearHashFieldTtls_putSlot_kept
    (hheld : b'.slots.holds .hash key = true) (hash : FinMap β β) (names : List β) :
    Kept b' ((b'.putSlot key .hash hash).clearHashFieldTtls key names) :=
  (putSlot_kept hheld hash).trans (clearHashFieldTtls_kept key names _)

/-- On a stored hash the flag is raised exactly when the hash is given up. -/
theorem setexFields_reported (hb : b.WellFormed) {hash : FinMap β β}
    (hlookup : b.hashes.lookup key = some hash) (fields : List (β × β))
    (action : HashFieldSetExpireAction) (nowMs : ℕ) :
    Reported key b (b.setexFields key hash false fields action nowMs).changed
      (b.setexFields key hash false fields action nowMs).bucket := by
  have hheld := holds_of_lookup hlookup
  have hput := putSlot_kept hheld (insertFields hash fields).2
  have hstill := (hput.holds .hash key).trans hheld
  unfold setexFields
  cases action with
  | keepTtl => exact .kept hb hput
  | clear => exact .kept hb (hput.trans (clearHashFieldTtls_kept key _ _))
  | expireAt expireAtMs =>
    dsimp only
    have herase := hput.trans (clearHashFieldTtls_putSlot_kept hstill
      (eraseFields (insertFields hash fields).2 (fields.map Prod.fst)) (fields.map Prod.fst))
    split_ifs
    · exact .after_kept herase
        (.removed (herase.wellFormed hb) ((herase.holds .hash key).trans hheld))
    · exact .kept hb herase
    · exact .kept hb (hput.trans (setHashFieldExpiries_kept key expireAtMs _ _))

/-- Where nothing is stored the flag is raised in any case, and a slot appears only when the
deadline has not passed. -/
theorem setexFields_fresh (hb : b.WellFormed) (hfree : b.containsObject key = false)
    (fields : List (β × β)) (action : HashFieldSetExpireAction) (nowMs : ℕ) :
    (b.setexFields key ∅ true fields action nowMs).changed = true ∧
      (b.setexFields key ∅ true fields action nowMs).bucket.WellFormed ∧
      (b.setexFields key ∅ true fields action nowMs).bucket.slots.size =
        b.slots.size + (!action.passed nowMs).toNat := by
  have hsize := size_put_of_fresh (containsObject_eq_false.mp hfree .hash)
    ((insertFields ∅ fields).2 : Contents β σ .hash)
  have hcreated : Reported key b true (b.putSlot key .hash (insertFields ∅ fields).2) :=
    .created hb hfree _
  have hheld : (b.putSlot key .hash (insertFields ∅ fields).2).slots.holds .hash key = true := by
    simp [putSlot, holds_put]
  -- a write that keeps the new slot leaves one more than before
  have hkept : ∀ b', Kept (b.putSlot key .hash (insertFields ∅ fields).2) b' →
      b'.WellFormed ∧ b'.slots.size = b.slots.size + 1 :=
    fun b' h => ⟨h.wellFormed hcreated.wellFormed, h.size.trans hsize⟩
  unfold setexFields
  cases action with
  | keepTtl => exact ⟨rfl, hkept _ (.refl _)⟩
  | clear => exact ⟨rfl, hkept _ (clearHashFieldTtls_kept key _ _)⟩
  | expireAt expireAtMs =>
    simp only [eraseFields_insertFields_isEmpty, if_true]
    split_ifs with hpassed
    · have herase := clearHashFieldTtls_putSlot_kept hheld
        (eraseFields (insertFields ∅ fields).2 (fields.map Prod.fst)) (fields.map Prod.fst)
      have hdrop := size_drop ((herase.holds .hash key).trans hheld)
      have hleft := (hkept _ herase).2
      refine ⟨rfl, removeSlot_wellFormed (hkept _ herase).1 key .hash, ?_⟩
      simp only [HashFieldSetExpireAction.passed, hpassed, decide_true, removeSlot]
      simp only [Bool.not_true, Bool.toNat_false]
      omega
    · refine ⟨rfl, ?_⟩
      simpa [HashFieldSetExpireAction.passed, hpassed] using
        hkept _ (setHashFieldExpiries_kept key expireAtMs _ _)

/-- When the flag of `hash_field_setex` is right. Where nothing is stored, a deadline that has
passed must not reach the creation; where a hash is stored that has no live field left at the
reading of the call, the flag is right only if the new fields go the same way. -/
def SetexReports (b : RedisObjectBucket β σ) (key : β) (fields : List (β × β))
    (condition : HashFieldSetCondition) (action : HashFieldSetExpireAction) (nowMs : ℕ) : Prop :=
  fields = [] ∨
    if b.containsObject key then
      b.hasNon key .hash = true ∨ b.hashHasLiveFields key nowMs = true ∨
        condition ≠ .fxX ∧ action.passed nowMs = true
    else condition = .fxX ∨ action.passed nowMs = false

/-- The part of the write after the clean-up, on a bucket that does not store the key. -/
theorem hashFieldSetex_free {fields : List (β × β)}
    (hfields : fields.isEmpty = false)
    (hb : (b.removeExpiredHashIfEmpty key nowMs).2 = b') (hb' : b'.WellFormed)
    (hfree : b'.containsObject key = false) (condition : HashFieldSetCondition)
    (action : HashFieldSetExpireAction) :
    (b.hashFieldSetex key fields condition action nowMs).bucket.WellFormed ∧
      (b.hashFieldSetex key fields condition action nowMs).changed = decide (condition ≠ .fxX) ∧
      (b.hashFieldSetex key fields condition action nowMs).bucket.slots.size =
        b'.slots.size + (decide (condition ≠ .fxX) && !action.passed nowMs).toNat := by
  have hnone : b'.hashes.lookup key = none := by
    simpa [holds, hashes] using containsObject_eq_false.mp hfree .hash
  have hnon : b'.hasNon key .hash = false := by
    have hor := b'.containsObject_eq_or key .hash
    rw [hfree] at hor
    exact (Bool.or_eq_false_iff.mp hor.symm).2
  have hrefuses : condition.allows 0 fields.length = false ↔ condition = .fxX := by
    have hlength : 0 ≠ fields.length := fun h => by simp [length_eq_zero_iff.mp h.symm] at hfields
    cases condition <;> simp [HashFieldSetCondition.allows, hlength]
  unfold hashFieldSetex
  simp only [hfields, hb, hnone, hnon, Bool.false_eq_true, if_false, Bool.not_eq_true', hrefuses]
  split_ifs with hfxX
  · exact ⟨hb', by simp [hfxX], by simp [hfxX]⟩
  · obtain ⟨hchanged, hwell, hsize⟩ := setexFields_fresh hb' hfree fields action nowMs
    exact ⟨hwell, by simp [hchanged, hfxX], by simp [hsize, hfxX]⟩

/-- On a bucket that keeps the key through the clean-up, the write reports rightly. -/
theorem hashFieldSetex_reported_of_kept (hb : b.WellFormed) (hstored : b.containsObject key = true)
    (hkeeps : b.removeExpiredHashIfEmpty key nowMs = (false, b.removeExpiredHashFields key nowMs))
    (fields : List (β × β)) (condition : HashFieldSetCondition)
    (action : HashFieldSetExpireAction) :
    Reported key b (b.hashFieldSetex key fields condition action nowMs).changed
      (b.hashFieldSetex key fields condition action nowMs).bucket := by
  have hkept := removeExpiredHashFields_kept b key nowMs
  have hpurged := hkept.wellFormed hb
  have hstill := (hkept.containsObject key).trans hstored
  unfold hashFieldSetex
  rw [hkeeps]
  generalize b.removeExpiredHashFields key nowMs = purged at hkept hpurged hstill
  cases fields.isEmpty with
  | true => exact .refl hb
  | false =>
    refine .after_kept hkept ?_
    dsimp only
    rw [if_neg Bool.false_ne_true]
    split
    next hash hlookup =>
      split_ifs
      · exact .refl hpurged
      · exact setexFields_reported hpurged hlookup fields action nowMs
    next hnone =>
      have hheld : purged.slots.holds .hash key = false := not_holds_of_lookup hnone
      have hnon : purged.hasNon key .hash = true := by
        have hor := purged.containsObject_eq_or key .hash
        rw [hstill, hheld] at hor
        exact hor.symm
      rw [if_pos hnon]
      exact .refl hpurged

/-- The slots move as the flag says exactly under `SetexReports`. -/
theorem hashFieldSetex_spec (hb : b.WellFormed) (key : β) (fields : List (β × β))
    (condition : HashFieldSetCondition) (action : HashFieldSetExpireAction) (nowMs : ℕ) :
    (b.hashFieldSetex key fields condition action nowMs).bucket.WellFormed ∧
      (((b.hashFieldSetex key fields condition action nowMs).bucket.slots.size : ℤ) =
          b.slots.size + notedChange (b.containsObject key)
            (b.hashFieldSetex key fields condition action nowMs).changed ↔
        b.SetexReports key fields condition action nowMs) := by
  have hkept := removeExpiredHashFields_kept b key nowMs
  have hpurged := hkept.wellFormed hb
  have hclean := removeExpiredHashIfEmpty_eq b key nowMs
  unfold SetexReports
  cases hfields : fields.isEmpty with
  | true =>
    have hnil := List.isEmpty_iff.mp hfields
    subst hnil
    have hsame : Reported key b false b := .refl hb
    exact ⟨hb, iff_of_true hsame.size (.inl rfl)⟩
  | false =>
    have hne : fields ≠ [] := by simpa using hfields
    cases hstored : b.containsObject key with
    | false =>
      -- nothing is stored: the flag is raised, and must stand for a new slot
      have hfree := (hkept.containsObject key).trans hstored
      have hheld := containsObject_eq_false.mp hstored .hash
      simp only [hheld, Bool.false_and, Bool.false_eq_true, if_false] at hclean
      obtain ⟨hwell, hchanged, hsize⟩ := hashFieldSetex_free hfields
        (congrArg Prod.snd hclean) hpurged hfree condition action
      rw [hkept.size] at hsize
      refine ⟨hwell, ?_⟩
      rw [hchanged, hsize]
      cases condition <;> cases action.passed nowMs <;> simp [notedChange, hne]
    | true =>
      cases hgone : b.slots.holds .hash key && !b.hashHasLiveFields key nowMs with
      | true =>
        -- the clean-up inside the write took the hash; what is reported comes on top of that
        obtain ⟨hheld, hdead⟩ := Bool.and_eq_true_iff.mp hgone
        have hheld' := (hkept.holds .hash key).trans hheld
        have hsizes := size_drop hheld'
        rw [hgone, if_pos rfl] at hclean
        obtain ⟨hwell, hchanged, hsize⟩ := hashFieldSetex_free hfields (congrArg Prod.snd hclean)
          (removeSlot_wellFormed hpurged key .hash)
          (containsObject_eq_false.mpr (hpurged.exclusive.not_holds_drop hheld')) condition action
        simp only [removeSlot] at hsize
        have hlive : b.hashHasLiveFields key nowMs = false := by simpa using hdead
        refine ⟨hwell, ?_⟩
        rw [hchanged, hsize, hasNon_eq_false hb.exclusive hheld, hlive, ← hkept.size, ← hsizes]
        cases condition <;> cases action.passed nowMs <;> simp [notedChange, hne]
      | false =>
        rw [hgone, if_neg Bool.false_ne_true] at hclean
        have hreport := hashFieldSetex_reported_of_kept hb hstored hclean fields condition action
        have hsize := hreport.size
        rw [hstored] at hsize
        refine ⟨hreport.wellFormed, iff_of_true hsize (.inr ?_)⟩
        rw [if_pos rfl]
        rw [b.containsObject_eq_or key .hash] at hstored
        cases hheld : b.slots.holds .hash key with
        | true =>
          rw [hheld] at hgone
          exact .inr (.inl (by simpa using hgone))
        | false =>
          rw [hheld] at hstored
          exact .inl hstored

end RedisObjectBucket
end ShardKv
