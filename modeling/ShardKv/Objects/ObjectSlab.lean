import Mathlib.Data.List.Nodup

/-!
# Slabs with a free list

A slab keeps its values in a growing table and lists the places that have become
vacant, to fill them again before the table grows. A map from keys to places is
kept beside it by the caller. `Indexed` says that the two belong together: every
key has a place of its own, the places in use are those of the keys, and the free
list has every other place once.
-/
namespace ShardKv

open Function

universe u w

structure ObjectSlab (α : Type w) where
  entries : List (Option α) := []
  /-- The places that are free, the one to be filled next in front. -/
  free : List ℕ := []
  deriving DecidableEq

namespace ObjectSlab

variable {κ : Type u} {α : Type w} (slab : ObjectSlab α)

def get (slot : ℕ) : Option α := slab.entries[slot]?.join

/-- Fill a place; `none` where the listed place would be out of bounds. -/
def insert (value : α) : Option (ℕ × ObjectSlab α) :=
  match slab.free with
  | slot :: free =>
    if slot < slab.entries.length then some (slot, ⟨slab.entries.set slot (some value), free⟩)
    else none
  | [] => some (slab.entries.length, ⟨slab.entries ++ [some value], []⟩)

/-- Replace the value behind `get_mut`. -/
def set (slot : ℕ) (value : α) : ObjectSlab α :=
  { slab with entries := slab.entries.set slot (some value) }

def remove (slot : ℕ) : ObjectSlab α :=
  if (slab.get slot).isSome then ⟨slab.entries.set slot none, slot :: slab.free⟩ else slab

/-- Every key has its own occupied place, and every place is either that of a key or free. -/
structure Indexed (index : κ → Option ℕ) (slab : ObjectSlab α) : Prop where
  occupied : ∀ key slot, index key = some slot → (slab.get slot).isSome = true
  distinct : ∀ key key' slot, index key = some slot → index key' = some slot → key = key'
  referenced : ∀ slot, (slab.get slot).isSome = true → ∃ key, index key = some slot
  free_nodup : slab.free.Nodup
  mem_free : ∀ slot, slot ∈ slab.free ↔ slot < slab.entries.length ∧ slab.get slot = none

/-- What the keys stand for. -/
def view (index : κ → Option ℕ) (slab : ObjectSlab α) (key : κ) : Option α :=
  (index key).bind slab.get

variable {slab} {index : κ → Option ℕ} {key : κ} {slot : ℕ}

theorem indexed_empty : Indexed (fun _ : κ => none) ({} : ObjectSlab α) where
  occupied _ _ h := nomatch h
  distinct _ _ _ h := nomatch h
  referenced _ h := by simp [get] at h
  free_nodup := List.nodup_nil
  mem_free slot := by simp

theorem lt_length_of_isSome (h : (slab.get slot).isSome = true) : slot < slab.entries.length := by
  by_contra hge
  simp [get, List.getElem?_eq_none (Nat.le_of_not_lt hge)] at h

theorem get_mk_set (hlt : slot < slab.entries.length) (value : Option α) (free : List ℕ)
    (other : ℕ) :
    (⟨slab.entries.set slot value, free⟩ : ObjectSlab α).get other =
      if other = slot then value else slab.get other := by
  simp only [get, List.getElem?_set]
  by_cases hother : slot = other
  · subst hother
    simp [hlt]
  · simp [hother, Ne.symm hother]

theorem set_set (slab : ObjectSlab α) (slot : ℕ) (first second : α) :
    (slab.set slot first).set slot second = slab.set slot second := by
  simp [set]

theorem remove_set (h : (slab.get slot).isSome = true) (value : α) :
    (slab.set slot value).remove slot = slab.remove slot := by
  have hget := get_mk_set (lt_length_of_isSome h) (some value) slab.free slot
  rw [if_pos rfl] at hget
  simp [remove, set, hget, h]

/-- Which place is filled does not depend on the value. -/
theorem insert_set {first : α} {filled : ObjectSlab α}
    (h : slab.insert first = some (slot, filled)) (second : α) :
    slab.insert second = some (slot, filled.set slot second) := by
  unfold insert at h ⊢
  split at h
  · split_ifs at h with hlt
    cases h
    simp [hlt, set]
  · cases h
    simp [set]

namespace Indexed

variable (h : Indexed index slab)
include h

theorem isSome_view (key : κ) : (view index slab key).isSome = (index key).isSome := by
  cases hindex : index key with
  | none => simp [view, hindex]
  | some slot => simp [view, hindex, h.occupied key slot hindex]

/-- A listed place is never out of bounds. -/
theorem isSome_insert (value : α) : (slab.insert value).isSome = true := by
  cases hfreelist : slab.free with
  | nil => simp [ObjectSlab.insert, hfreelist]
  | cons slot free =>
    obtain ⟨hlt, -⟩ := (h.mem_free slot).mp (by simp [hfreelist])
    simp [ObjectSlab.insert, hfreelist, hlt]

variable [DecidableEq κ]

/-- The value in one place changes, and with it the place of one key: the facts common to a value
that is replaced, stored and given up. -/
theorem change {value : Option α} {changed : ObjectSlab α}
    (hother : ∀ other, index other = some slot → other = key)
    (hkey : ∀ place, index key = some place → place = slot)
    (hget : ∀ other, changed.get other = if other = slot then value else slab.get other)
    (hnodup : changed.free.Nodup)
    (hfree : ∀ other, other ∈ changed.free ↔ other < changed.entries.length ∧
      changed.get other = none) :
    Indexed (Function.update index key (value.map fun _ => slot)) changed ∧
      view (Function.update index key (value.map fun _ => slot)) changed =
        Function.update (view index slab) key value := by
  refine ⟨⟨?_, ?_, ?_, hnodup, hfree⟩, ?_⟩
  · intro other place hplace
    have hold := h.occupied other place
    cases value with grind [update_apply]
  · intro first second place hfirst hsecond
    have hold := h.distinct first second place
    cases value with grind [update_apply]
  · intro place hplace
    rw [hget] at hplace
    split_ifs at hplace with heq
    · obtain ⟨new, rfl⟩ := Option.isSome_iff_exists.mp hplace
      exact ⟨key, by rw [update_self, heq, Option.map_some]⟩
    · obtain ⟨other, hold⟩ := h.referenced place hplace
      have hne : other ≠ key := by
        rintro rfl
        exact heq (hkey place hold)
      exact ⟨other, by rw [update_of_ne hne, hold]⟩
  · funext other
    rcases eq_or_ne other key with rfl | hne
    · cases value <;> simp [view, hget]
    · cases hplace : index other with
      | none => simp [view, hne, hplace]
      | some place =>
        have hslot : place ≠ slot := by
          rintro rfl
          exact hne (hother other hplace)
        simp [view, hne, hplace, hget, hslot]

theorem set (hkey : index key = some slot) (value : α) :
    Indexed index (slab.set slot value) ∧
      view index (slab.set slot value) = Function.update (view index slab) key (some value) := by
  have hused := h.occupied key slot hkey
  have hget := get_mk_set (lt_length_of_isSome hused) (some value) slab.free
  have hchange := h.change
    (fun other hother => h.distinct other key slot hother hkey) (by simp [hkey]) hget h.free_nodup
    (by grind [ObjectSlab.set, h.mem_free])
  rwa [Option.map_some, ← hkey, update_eq_self] at hchange

/-- A value is stored under a new key, in a free place if there is one and at the end if not. -/
theorem insert (hfresh : index key = none) {value : α} {filled : ObjectSlab α}
    (hinsert : slab.insert value = some (slot, filled)) :
    Indexed (Function.update index key (some slot)) filled ∧
      view (Function.update index key (some slot)) filled =
        Function.update (view index slab) key (some value) := by
  -- no key has a vacant place
  have hunused : ∀ slot, slab.get slot = none → ∀ other, index other = some slot → other = key := by
    intro slot hvacant other hother
    simpa [hvacant] using h.occupied other slot hother
  cases hfreelist : slab.free with
  | cons place free =>
    obtain ⟨hlt, hvacant⟩ := (h.mem_free place).mp (by simp [hfreelist])
    obtain ⟨hnotin, hrest⟩ := List.nodup_cons.mp (hfreelist ▸ h.free_nodup)
    simp only [ObjectSlab.insert, hfreelist, hlt, if_true, Option.some.injEq,
      Prod.mk.injEq] at hinsert
    obtain ⟨rfl, rfl⟩ := hinsert
    refine h.change (hunused place hvacant) (by simp [hfresh]) (get_mk_set hlt (some value) free)
      hrest ?_
    intro other
    have hold := h.mem_free other
    have hget := get_mk_set hlt (some value) free other
    grind
  | nil =>
    simp only [ObjectSlab.insert, hfreelist, Option.some.injEq, Prod.mk.injEq] at hinsert
    obtain ⟨rfl, rfl⟩ := hinsert
    have hget : ∀ other, ObjectSlab.get ⟨slab.entries ++ [some value], []⟩ other =
        if other = slab.entries.length then some value else slab.get other := by
      intro other
      grind [get]
    refine h.change (hunused _ (by simp [get])) (by simp [hfresh]) hget List.nodup_nil ?_
    intro other
    have hold := h.mem_free other
    grind

theorem remove (hkey : index key = some slot) :
    Indexed (Function.update index key none) (slab.remove slot) ∧
      view (Function.update index key none) (slab.remove slot) =
        Function.update (view index slab) key none := by
  have hused := h.occupied key slot hkey
  have hget := get_mk_set (lt_length_of_isSome hused) none (slot :: slab.free)
  have hnodup : (slot :: slab.free).Nodup := by
    refine List.nodup_cons.mpr ⟨fun hmem => ?_, h.free_nodup⟩
    simp [((h.mem_free slot).mp hmem).2] at hused
  have hfree : ∀ other, other ∈ slot :: slab.free ↔ other < (slab.entries.set slot none).length ∧
      ObjectSlab.get ⟨slab.entries.set slot none, slot :: slab.free⟩ other = none := by
    intro other
    have hold := h.mem_free other
    have hlt := lt_length_of_isSome hused
    grind
  rw [ObjectSlab.remove, if_pos hused]
  have hchange := h.change (fun other hother => h.distinct other key slot hother hkey)
    (by simp [hkey]) hget hnodup hfree
  exact hchange

end Indexed
end ObjectSlab
end ShardKv
