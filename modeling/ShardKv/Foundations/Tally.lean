import Mathlib.Data.List.AList
import Mathlib.Algebra.BigOperators.Group.List.Basic
import Mathlib.Algebra.GroupWithZero.Nat

/-!
# Weighted sums over finite maps

`FinMap` is Mathlib's association list with one value type. `tally` adds a
weight over all its entries; an insertion or a removal changes it by the weights
of the entries involved and nothing else, which is what makes a counter that is
adjusted step by step exact.
-/
namespace ShardKv

open List AList

universe u v

abbrev FinMap (κ : Type u) (ν : Type v) := AList fun _ : κ => ν

namespace FinMap

variable {κ : Type u} {ν : Type v} [DecidableEq κ]

theorem lookup_insert_eq (m : FinMap κ ν) (k : κ) (v : ν) (k' : κ) :
    (m.insert k v).lookup k' = if k' = k then some v else m.lookup k' := by
  split_ifs with h
  · subst h
    exact lookup_insert m
  · exact lookup_insert_ne h

theorem lookup_erase_eq (m : FinMap κ ν) (k k' : κ) :
    (m.erase k).lookup k' = if k' = k then none else m.lookup k' := by
  split_ifs with h
  · subst h
    exact lookup_erase k' m
  · exact lookup_erase_ne h

theorem dlookup_toList {k : κ} : ∀ {entries : List (Sigma fun _ : κ => ν)}, entries.NodupKeys →
    entries.filter (fun entry => decide (entry.1 = k)) =
      ((entries.dlookup k).map (Sigma.mk k)).toList
  | [], _ => rfl
  | ⟨other, v⟩ :: entries, hnodup => by
    obtain ⟨hfresh, hrest⟩ := nodupKeys_cons.mp hnodup
    by_cases hother : other = k
    · subst hother
      have hnone : entries.filter (fun entry => decide (entry.1 = other)) = [] := by
        apply filter_eq_nil_iff.mpr
        intro entry hentry
        have hkey : entry.1 ∈ entries.keys := mem_map_of_mem hentry
        have hne : entry.1 ≠ other := fun h => hfresh (h ▸ hkey)
        simpa using hne
      rw [filter_cons, hnone, dlookup_cons_eq]
      exact if_pos (decide_eq_true rfl)
    · rw [filter_cons_of_neg (by simpa using hother), dlookup_toList hrest,
        dlookup_cons_ne _ _ (Ne.symm hother)]

/-- The sum of a weight over all entries. -/
def tally (w : κ → ν → ℕ) (m : FinMap κ ν) : ℕ := (m.entries.map fun entry => w entry.1 entry.2).sum

variable {w : κ → ν → ℕ} {m : FinMap κ ν} {k : κ} {v : ν}

omit [DecidableEq κ] in
@[simp] theorem tally_empty : tally w (∅ : FinMap κ ν) = 0 := rfl

variable (m k v) in
theorem tally_insert : tally w (m.insert k v) = w k v + tally w (m.erase k) := by
  unfold tally
  rw [entries_insert, map_cons, sum_cons]
  rfl

theorem erase_of_lookup_none (h : m.lookup k = none) : m.erase k = m := by
  apply AList.ext
  exact kerase_of_notMem_keys (lookup_eq_none.mp h)

theorem tally_erase (h : m.lookup k = some v) : tally w m = w k v + tally w (m.erase k) := by
  have hmem : k ∈ m.entries.keys := lookup_isSome.mp (by rw [h]; rfl)
  obtain ⟨b, front, rest, hfresh, hentries, hkerase⟩ := exists_of_kerase hmem
  have hb : b = v := by
    have hlookup : m.lookup k = some b := mem_lookup_iff.mpr (by rw [hentries]; simp)
    rw [h] at hlookup
    exact (Option.some.inj hlookup).symm
  have herase : (m.erase k).entries = front ++ rest := hkerase
  unfold tally
  rw [herase, hentries, hb]
  simp only [map_append, map_cons, sum_append, sum_cons]
  omega

theorem weight_le_tally (h : m.lookup k = some v) : w k v ≤ tally w m := by
  rw [tally_erase h]
  exact Nat.le_add_right _ _

/-- The map with this value for the key, or without one. -/
def put (m : FinMap κ ν) (k : κ) : Option ν → FinMap κ ν
  | some v => m.insert k v
  | none => m.erase k

variable (m k) in
theorem lookup_put (v : Option ν) (k' : κ) :
    (m.put k v).lookup k' = if k' = k then v else m.lookup k' := by
  cases v with
  | none => exact lookup_erase_eq m k k'
  | some v => exact lookup_insert_eq m k v k'

variable (m k) in
theorem tally_put (v : Option ν) :
    tally w (m.put k v) + (m.lookup k).elim 0 (w k) = tally w m + v.elim 0 (w k) := by
  have hrest : tally w m = (m.lookup k).elim 0 (w k) + tally w (m.erase k) := by
    cases hkey : m.lookup k with
    | none => simp [erase_of_lookup_none hkey]
    | some old => exact tally_erase hkey
  cases v with
  | none => simp only [put, Option.elim_none]; omega
  | some v => simp only [put, tally_insert, Option.elim_some]; omega

theorem tally_eq_zero (h : tally w m = 0) (hk : m.lookup k = some v) : w k v = 0 :=
  Nat.eq_zero_of_le_zero (h ▸ weight_le_tally hk)

/-- With weight one the sum counts the entries, so that it vanishes for the empty map alone. -/
theorem tally_one_eq_zero_iff : tally (fun _ _ => 1) m = 0 ↔ ∀ k, m.lookup k = none := by
  constructor
  · intro h k
    by_contra hsome
    obtain ⟨v, hv⟩ := Option.ne_none_iff_exists'.mp hsome
    exact Nat.one_ne_zero (tally_eq_zero h hv)
  · intro h
    have hnil : m.entries = [] := by
      apply eq_nil_iff_forall_not_mem.mpr
      rintro ⟨k, v⟩ hmem
      exact Option.some_ne_none v ((mem_lookup_iff.mpr hmem).symm.trans (h k))
    simp [tally, hnil]

end FinMap
end ShardKv
