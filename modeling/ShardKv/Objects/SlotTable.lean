import Mathlib.Algebra.BigOperators.Fin
import ShardKv.Foundations.Tally
import ShardKv.Objects.ObjectSlab

/-!
# Families of slabs over one key space

A slab map keeps its values in the places of a slab and the place of each key in a
map beside it; that the two belong together is part of it, so that the place of a key
is never vacant and a listed place never out of bounds. Seen by its lookups it is a
finite map. A slot table has one slab map for each kind of value, all over the same
keys. Nothing in the type keeps a key out of two of them at once; `Exclusive` says that
it is in at most one.
-/
namespace ShardKv

open Function

universe u v w

structure SlabMap (κ : Type u) [DecidableEq κ] (ν : Type w) where
  map : FinMap κ ℕ
  slab : ObjectSlab ν
  indexed : slab.Indexed fun key => map.lookup key

namespace SlabMap

variable {κ : Type u} [DecidableEq κ] {ν : Type w}

theorem update_lookup_insert (map : FinMap κ ℕ) (key : κ) (slot : ℕ) :
    update (fun key => map.lookup key) key (some slot) =
      fun other => (map.insert key slot).lookup other := by
  funext other
  rw [FinMap.lookup_insert_eq, update_apply]

theorem update_lookup_erase (map : FinMap κ ℕ) (key : κ) :
    update (fun key => map.lookup key) key none = fun other => (map.erase key).lookup other := by
  funext other
  rw [FinMap.lookup_erase_eq, update_apply]

section

variable (m : SlabMap κ ν)

theorem indexed_insert {key : κ} {slot : ℕ} {value : ν} {filled : ObjectSlab ν}
    (hfresh : m.map.lookup key = none) (hinsert : m.slab.insert value = some (slot, filled)) :
    filled.Indexed fun other => (m.map.insert key slot).lookup other :=
  update_lookup_insert m.map key slot ▸ (m.indexed.insert hfresh hinsert).1

theorem indexed_erase {key : κ} {slot : ℕ} (hslot : m.map.lookup key = some slot) :
    (m.slab.remove slot).Indexed fun other => (m.map.erase key).lookup other :=
  update_lookup_erase m.map key ▸ (m.indexed.remove hslot).1

def empty : SlabMap κ ν := ⟨∅, {}, ObjectSlab.indexed_empty⟩

variable (key : κ) (value : ν)

/-- What `get` and its `expect` give. -/
def lookup : Option ν :=
  match h : m.map.lookup key with
  | none => none
  | some slot => some ((m.slab.get slot).get (m.indexed.occupied key slot h))

/-- A stored key keeps its place, a new one gets a free place or one at the end. -/
def insert : SlabMap κ ν :=
  match h : m.map.lookup key with
  | some slot => ⟨m.map, m.slab.set slot value, (m.indexed.set h value).1⟩
  | none =>
    let filled := (m.slab.insert value).get (m.indexed.isSome_insert value)
    ⟨m.map.insert key filled.1, filled.2, m.indexed_insert h (Option.some_get _).symm⟩

def erase : SlabMap κ ν :=
  match h : m.map.lookup key with
  | some slot => ⟨m.map.erase key, m.slab.remove slot, m.indexed_erase h⟩
  | none => m

/-- The number of stored keys. -/
def size : ℕ := m.map.tally fun _ _ => 1

end

variable {m : SlabMap κ ν} {key : κ} {value : ν}

theorem lookup_eq (m : SlabMap κ ν) (key : κ) :
    m.lookup key = ObjectSlab.view (fun key => m.map.lookup key) m.slab key := by
  unfold lookup ObjectSlab.view
  split
  next h => simp [h]
  next slot h => simp [h]

@[simp] theorem lookup_empty (key : κ) : (empty : SlabMap κ ν).lookup key = none := rfl

theorem isSome_lookup (m : SlabMap κ ν) (key : κ) :
    (m.lookup key).isSome = (m.map.lookup key).isSome := by
  rw [lookup_eq, m.indexed.isSome_view]

theorem lookup_insert_eq (m : SlabMap κ ν) (key : κ) (value : ν) (other : κ) :
    (m.insert key value).lookup other = if other = key then some value else m.lookup other := by
  rw [lookup_eq, lookup_eq, ← update_apply (ObjectSlab.view _ m.slab)]
  unfold insert
  split
  next slot h => rw [(m.indexed.set h value).2]
  next h =>
    rw [← (m.indexed.insert h (Option.some_get (m.indexed.isSome_insert value)).symm).2,
      update_lookup_insert]
    rfl

theorem lookup_erase_eq (m : SlabMap κ ν) (key other : κ) :
    (m.erase key).lookup other = if other = key then none else m.lookup other := by
  rw [lookup_eq, lookup_eq, ← update_apply (ObjectSlab.view _ m.slab)]
  unfold erase
  split
  next slot h => rw [← (m.indexed.remove h).2, update_lookup_erase]
  next h =>
    rw [update_eq_self_iff.mpr]
    simp [ObjectSlab.view, h]

/-- The place of a stored key and what a write does there. -/
theorem insert_of_slot {slot : ℕ} (h : m.map.lookup key = some slot) (value : ν) :
    (m.insert key value).map = m.map ∧ (m.insert key value).slab = m.slab.set slot value := by
  unfold insert
  split
  next other hother =>
    rw [h] at hother
    cases hother
    exact ⟨rfl, rfl⟩
  next hother =>
    rw [h] at hother
    cases hother

theorem insert_of_fresh (h : m.map.lookup key = none) (value : ν) : ∃ slot filled,
    m.slab.insert value = some (slot, filled) ∧
      (m.insert key value).map = m.map.insert key slot ∧ (m.insert key value).slab = filled := by
  refine ⟨_, _, (Option.some_get (m.indexed.isSome_insert value)).symm, ?_⟩
  unfold insert
  split
  next slot hslot =>
    rw [h] at hslot
    cases hslot
  next => exact ⟨rfl, rfl⟩

theorem erase_of_slot {slot : ℕ} (h : m.map.lookup key = some slot) :
    (m.erase key).map = m.map.erase key ∧ (m.erase key).slab = m.slab.remove slot := by
  unfold erase
  split
  next other hother =>
    rw [h] at hother
    cases hother
    exact ⟨rfl, rfl⟩
  next hother =>
    rw [h] at hother
    cases hother

theorem ext_of {other : SlabMap κ ν} (hmap : m.map = other.map) (hslab : m.slab = other.slab) :
    m = other := by
  cases m
  cases other
  cases hmap
  cases hslab
  rfl

theorem insert_insert (m : SlabMap κ ν) (key : κ) (first second : ν) :
    (m.insert key first).insert key second = m.insert key second := by
  cases hslot : m.map.lookup key with
  | some slot =>
    obtain ⟨hmap, hslab⟩ := insert_of_slot hslot first
    obtain ⟨hmap', hslab'⟩ := insert_of_slot (hmap ▸ hslot) second
    obtain ⟨hmap'', hslab''⟩ := insert_of_slot hslot second
    apply ext_of
    · rw [hmap', hmap, hmap'']
    · rw [hslab', hslab, hslab'', ObjectSlab.set_set]
  | none =>
    obtain ⟨slot, filled, hinsert, hmap, hslab⟩ := insert_of_fresh hslot first
    obtain ⟨slot', filled', hinsert', hmap'', hslab''⟩ := insert_of_fresh hslot second
    rw [ObjectSlab.insert_set hinsert second] at hinsert'
    cases hinsert'
    have hplace : (m.insert key first).map.lookup key = some slot := by
      rw [hmap, AList.lookup_insert]
    obtain ⟨hmap', hslab'⟩ := insert_of_slot hplace second
    apply ext_of
    · rw [hmap', hmap, hmap'']
    · rw [hslab', hslab, hslab'']

theorem erase_insert (h : (m.lookup key).isSome = true) (value : ν) :
    (m.insert key value).erase key = m.erase key := by
  obtain ⟨slot, hslot⟩ := Option.isSome_iff_exists.mp (m.isSome_lookup key ▸ h)
  obtain ⟨hmap, hslab⟩ := insert_of_slot hslot value
  obtain ⟨hmap', hslab'⟩ := erase_of_slot (hmap ▸ hslot : (m.insert key value).map.lookup key = _)
  obtain ⟨hmap'', hslab''⟩ := erase_of_slot hslot
  apply ext_of
  · rw [hmap', hmap'', hmap]
  · rw [hslab', hslab'', hslab, ObjectSlab.remove_set (m.indexed.occupied key slot hslot)]

theorem size_insert (m : SlabMap κ ν) (key : κ) (value : ν) :
    (m.insert key value).size = m.size + (!(m.lookup key).isSome).toNat := by
  rw [isSome_lookup, size, size]
  cases hslot : m.map.lookup key with
  | some slot =>
    rw [(insert_of_slot hslot value).1]
    rfl
  | none =>
    obtain ⟨slot, filled, -, hmap, -⟩ := insert_of_fresh hslot value
    have htally := FinMap.tally_put (w := fun _ _ => 1) m.map key (some slot)
    simp only [FinMap.put, hslot, Option.elim] at htally
    rw [hmap]
    exact htally

theorem size_erase (h : (m.lookup key).isSome = true) : (m.erase key).size + 1 = m.size := by
  obtain ⟨slot, hslot⟩ := Option.isSome_iff_exists.mp (m.isSome_lookup key ▸ h)
  rw [size, size, (erase_of_slot hslot).1]
  have htally := FinMap.tally_erase (w := fun _ _ => 1) hslot
  omega

end SlabMap

/-- One slab map for each kind. -/
abbrev SlotTable (κ : Type u) [DecidableEq κ] {ι : Type v} (ν : ι → Type w) :=
  (kind : ι) → SlabMap κ (ν kind)

namespace SlotTable

variable {κ : Type u} {ι : Type v} {ν : ι → Type w} [DecidableEq κ]
  {t : SlotTable κ ν} {kind : ι} {key : κ}

def empty : SlotTable κ ν := fun _ => .empty

def holds (t : SlotTable κ ν) (kind : ι) (key : κ) : Bool := ((t kind).lookup key).isSome

/-- A key has a slot of at most one kind. -/
def Exclusive (t : SlotTable κ ν) : Prop :=
  ∀ key kind kind', t.holds kind key = true → t.holds kind' key = true → kind = kind'

theorem holds_of_lookup {value : ν kind} (h : (t kind).lookup key = some value) :
    t.holds kind key = true := by
  simp [holds, h]

theorem not_holds_of_lookup (h : (t kind).lookup key = none) : t.holds kind key = false := by
  simp [holds, h]

theorem exists_lookup (h : t.holds kind key = true) : ∃ value, (t kind).lookup key = some value :=
  Option.isSome_iff_exists.mp h

variable [DecidableEq ι]

def put (t : SlotTable κ ν) (kind : ι) (key : κ) (value : ν kind) : SlotTable κ ν :=
  update t kind ((t kind).insert key value)

def drop (t : SlotTable κ ν) (kind : ι) (key : κ) : SlotTable κ ν :=
  update t kind ((t kind).erase key)

section

variable (t kind key)

@[simp] theorem put_self (value : ν kind) : t.put kind key value kind = (t kind).insert key value :=
  update_self ..

@[simp] theorem drop_self : t.drop kind key kind = (t kind).erase key := update_self ..

theorem holds_put (value : ν kind) (kind' : ι) (key' : κ) :
    (t.put kind key value).holds kind' key' =
      (decide (kind' = kind ∧ key' = key) || t.holds kind' key') := by
  unfold holds
  by_cases hkind : kind' = kind
  · subst hkind
    rw [put_self, SlabMap.lookup_insert_eq]
    by_cases hkey : key' = key <;> simp [hkey]
  · rw [put, update_of_ne hkind]
    simp [hkind]

theorem holds_drop (kind' : ι) (key' : κ) : (t.drop kind key).holds kind' key' =
      (!decide (kind' = kind ∧ key' = key) && t.holds kind' key') := by
  unfold holds
  by_cases hkind : kind' = kind
  · subst hkind
    rw [drop_self, SlabMap.lookup_erase_eq]
    by_cases hkey : key' = key <;> simp [hkey]
  · rw [drop, update_of_ne hkind]
    simp [hkind]

end

theorem holds_put_of_holds (h : t.holds kind key = true) (value : ν kind) (kind' : ι) (key' : κ) :
    (t.put kind key value).holds kind' key' = t.holds kind' key' := by
  rw [holds_put]
  by_cases hsame : kind' = kind ∧ key' = key
  · obtain ⟨rfl, rfl⟩ := hsame
    simp [h]
  · simp [hsame]

theorem Exclusive.put (h : t.Exclusive) (hfresh : ∀ kind', t.holds kind' key = false)
    (value : ν kind) : (t.put kind key value).Exclusive := by
  intro key' kind₁ kind₂ h₁ h₂
  rw [holds_put] at h₁ h₂
  by_cases hkey : key' = key
  · subst hkey
    simp only [and_true, hfresh, Bool.or_false, decide_eq_true_eq] at h₁ h₂
    exact h₁.trans h₂.symm
  · simp only [hkey, and_false, decide_false, Bool.false_or] at h₁ h₂
    exact h key' kind₁ kind₂ h₁ h₂

theorem Exclusive.drop (h : t.Exclusive) (kind : ι) (key : κ) : (t.drop kind key).Exclusive := by
  intro key' kind₁ kind₂ h₁ h₂
  rw [holds_drop, Bool.and_eq_true] at h₁ h₂
  exact h key' kind₁ kind₂ h₁.2 h₂.2

/-- Dropping the one slot of a key leaves it without any. -/
theorem Exclusive.not_holds_drop (h : t.Exclusive) (hheld : t.holds kind key = true) (kind' : ι) :
    (t.drop kind key).holds kind' key = false := by
  rw [holds_drop]
  by_cases hkind : kind' = kind
  · simp [hkind]
  · have hother : t.holds kind' key = false := by
      by_contra hne
      exact hkind (h key kind' kind (by simpa using hne) hheld)
    simp [hother]

variable [Fintype ι]

/-- The number of stored slots. -/
def size (t : SlotTable κ ν) : ℕ := ∑ kind, (t kind).size

omit [DecidableEq ι] in
@[simp] theorem size_empty : (empty : SlotTable κ ν).size = 0 :=
  Finset.sum_eq_zero fun _ _ => FinMap.tally_empty

theorem size_update (t : SlotTable κ ν) (kind : ι) (m : SlabMap κ (ν kind)) :
    size (update t kind m) + (t kind).size = t.size + m.size := by
  have hrest : ∑ k ∈ {kind}ᶜ, ((update t kind m : SlotTable κ ν) k).size =
      ∑ k ∈ {kind}ᶜ, (t k).size := by
    apply Finset.sum_congr rfl
    intro k hk
    rw [update_of_ne (by simpa using hk)]
  unfold size
  rw [Fintype.sum_eq_add_sum_compl kind, Fintype.sum_eq_add_sum_compl kind (fun k => (t k).size),
    hrest, update_self]
  omega

theorem size_put_of_holds (h : t.holds kind key = true) (value : ν kind) :
    (t.put kind key value).size = t.size := by
  obtain ⟨old, hold⟩ := exists_lookup h
  have hsize := t.size_update kind ((t kind).insert key value)
  rw [SlabMap.size_insert, hold] at hsize
  exact Nat.add_right_cancel hsize

theorem size_put_of_fresh (h : t.holds kind key = false) (value : ν kind) :
    (t.put kind key value).size = t.size + 1 := by
  have hnone : (t kind).lookup key = none := by simpa [holds] using h
  have hsize := t.size_update kind ((t kind).insert key value)
  rw [SlabMap.size_insert, hnone] at hsize
  unfold put
  simp only [Option.isSome_none, Bool.not_false, Bool.toNat_true] at hsize
  omega

theorem size_drop (h : t.holds kind key = true) : (t.drop kind key).size + 1 = t.size := by
  have hsize := t.size_update kind ((t kind).erase key)
  have herase := SlabMap.size_erase h
  unfold drop
  omega

omit [DecidableEq ι] in
theorem size_eq_zero_iff : t.size = 0 ↔ ∀ kind key, t.holds kind key = false := by
  simp only [size, SlabMap.size, Finset.sum_eq_zero_iff, Finset.mem_univ, true_imp_iff, holds,
    SlabMap.isSome_lookup, Option.isSome_eq_false_iff, Option.isNone_iff_eq_none,
    FinMap.tally_one_eq_zero_iff]

end SlotTable
end ShardKv
