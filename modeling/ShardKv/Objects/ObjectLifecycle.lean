import ShardKv.Objects.ObjectCounting

/-!
# Deletes, deadlines and whole objects

The commands that work on keys of any kind keep the counter too. The deadline
commands clean up first and count what that took; the clean-up that a bucket
repeats afterwards, at the same reading, finds nothing more. A restored object
replaces whatever the key held, and starts without a deadline.
-/
namespace ShardKv

variable {ι β σ : Type} [DecidableEq ι] [LinearOrder β] [LinearOrder σ]

namespace RedisObjectBucket

variable {b : RedisObjectBucket β σ} {key : β} {nowMs : ℕ}

/-- A write that moves no key and at most changes a deadline. -/
structure SameSize (b b' : RedisObjectBucket β σ) : Prop where
  wellFormed : b'.WellFormed
  size : b'.slots.size = b.slots.size

theorem deleteExpired_of_not_expired (h : b.objectIsExpired key nowMs = false) :
    b.deleteExpired key nowMs = (false, b) := by
  simp [deleteExpired, h]

section

variable (hb : b.WellFormed)
include hb

theorem persist_sameSize (h : b.objectIsExpired key nowMs = false) :
    SameSize b (b.persist key nowMs).2 := by
  unfold persist
  rw [deleteExpired_of_not_expired h]
  refine ⟨⟨hb.exclusive, ?_⟩, rfl⟩
  intro key' hdate
  refine hb.dated key' ?_
  rw [FinMap.lookup_erase_eq] at hdate
  split_ifs at hdate
  · simp at hdate
  · exact hdate

theorem expire_sameSize (h : b.objectIsExpired key nowMs = false) (expireAtMs : ℕ) :
    SameSize b (b.expire key expireAtMs nowMs).2 := by
  unfold expire
  rw [deleteExpired_of_not_expired h]
  dsimp only
  split_ifs with hstored
  · refine ⟨⟨hb.exclusive, ?_⟩, rfl⟩
    intro key' hdate
    rw [FinMap.lookup_insert_eq] at hdate
    split_ifs at hdate with hkey
    · exact hkey ▸ hstored
    · exact hb.dated key' hdate
  · exact ⟨hb, rfl⟩

/-- After a clean-up that took nothing, the same clean-up at the same reading takes nothing. -/
theorem purge_again (h : (b.purge key nowMs).1 = false) :
    (b.purge key nowMs).2.objectIsExpired key nowMs = false ∧
      ((b.purge key nowMs).2.removeExpiredHashIfEmpty key nowMs).1 = false := by
  have hkept := removeExpiredHashFields_kept b key nowMs
  have hclean := removeExpiredHashIfEmpty_eq b key nowMs
  unfold purge at h ⊢
  cases hexpired : b.objectIsExpired key nowMs with
  | true =>
    obtain ⟨kind, -, hdelete⟩ := deleteAny_of_stored (containsObject_of_expired hb hexpired)
    simp [deleteExpired, hexpired, hdelete, orElse] at h
  | false =>
    rw [deleteExpired_of_not_expired hexpired] at h ⊢
    simp only [orElse] at h ⊢
    rw [hclean] at h ⊢
    split_ifs at h ⊢ with hgone
    refine ⟨?_, ?_⟩
    · unfold objectIsExpired
      rw [hkept.expireAtMs]
      exact hexpired
    · rw [removeExpiredHashIfEmpty_eq, hkept.holds, hashHasLiveFields_removeExpired, max_self,
        if_neg hgone]

theorem ttlMillis_sameSize (h : b.objectIsExpired key nowMs = false)
    (h' : (b.removeExpiredHashIfEmpty key nowMs).1 = false) :
    SameSize b (b.ttlMillis key nowMs).2 := by
  have hremoves := removeExpiredHashIfEmpty_removes hb key nowMs
  unfold ttlMillis
  rw [deleteExpired_of_not_expired h]
  dsimp only
  generalize b.removeExpiredHashIfEmpty key nowMs = out at h' hremoves ⊢
  obtain ⟨taken, after⟩ := out
  subst h'
  have hsame : SameSize b after := ⟨hremoves.wellFormed, hremoves.size⟩
  dsimp only
  split_ifs
  · exact hsame
  · split <;> exact hsame

/-- A whole object replaces what the key held, and carries no deadline yet. -/
theorem insertValue_spec (key : β) (value : RedisObjectValue β σ) :
    (b.insertValue key value).1 = !b.containsObject key ∧ (b.insertValue key value).2.WellFormed ∧
      (b.insertValue key value).2.slots.size = b.slots.size + (!b.containsObject key).toNat ∧
      ∀ nowMs, (b.insertValue key value).2.objectIsExpired key nowMs = false := by
  unfold insertValue
  cases hstored : b.containsObject key with
  | true =>
    obtain ⟨kind, hheld, hdelete⟩ := deleteAny_of_stored hstored
    have hwell := removeSlot_wellFormed hb key kind
    have hfree : (b.removeSlot key kind).containsObject key = false :=
      containsObject_eq_false.mpr (hb.exclusive.not_holds_drop hheld)
    have hcreated : Reported key (b.removeSlot key kind) true
        ((b.removeSlot key kind).putSlot key value.kind value.contents) := .created hwell hfree _
    have hput := SlotTable.size_put_of_fresh (containsObject_eq_false.mp hfree value.kind)
      value.contents
    have hdrop := SlotTable.size_drop hheld
    rw [hdelete]
    refine ⟨rfl, hcreated.wellFormed, ?_, ?_⟩
    · simp only [putSlot, Bool.not_true, Bool.toNat_false]
      simp only [removeSlot] at hput ⊢
      omega
    · intro nowMs
      simp [objectIsExpired, putSlot, removeSlot, AList.lookup_erase]
  | false =>
    have hcreated : Reported key b true (b.putSlot key value.kind value.contents) :=
      .created hb hstored _
    have hput := SlotTable.size_put_of_fresh (containsObject_eq_false.mp hstored value.kind)
      value.contents
    rw [deleteAny_of_free hstored]
    refine ⟨rfl, hcreated.wellFormed, hput, ?_⟩
    intro nowMs
    by_contra hexpired
    have hthen : b.containsObject key = true :=
      containsObject_of_expired hb (by simpa [objectIsExpired, putSlot] using hexpired)
    exact Bool.false_ne_true (hstored.symm.trans hthen)

end
end RedisObjectBucket
end ShardKv
