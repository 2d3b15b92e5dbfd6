import Mathlib.Algebra.Order.BigOperators.Group.Finset

/-!
# Charges for held keys

A shared amount is used up by keys, each with a charge of its own. The amount in
use is exact when it is the sum over the keys that are held. Whether it stays
exact when one key changes is a question about that key alone.
-/
namespace ShardKv

variable {κ : Type*} {charge : κ → ℕ} {held : κ → Bool} {used : ℕ} {key : κ}

/-- The amount in use is what the held keys are charged, each counted once. -/
def Charged (charge : κ → ℕ) (held : κ → Bool) (used : ℕ) : Prop :=
  ∃ keys, (∀ key, key ∈ keys ↔ held key = true) ∧ used = ∑ key ∈ keys, charge key

theorem charged_zero (h : ∀ key, held key = false) : Charged charge held 0 :=
  ⟨∅, fun key => by simp [h key], rfl⟩

theorem Charged.le (h : Charged charge held used) (hkey : held key = true) : charge key ≤ used := by
  obtain ⟨keys, hkeys, rfl⟩ := h
  exact Finset.single_le_sum (fun _ _ => Nat.zero_le _) ((hkeys key).mpr hkey)

/-- When no key is held any more, everything has been given back. -/
theorem Charged.eq_zero (h : Charged charge held used) (hheld : ∀ key, held key = false) :
    used = 0 := by
  obtain ⟨keys, hkeys, rfl⟩ := h
  refine Finset.sum_eq_zero fun key hkey => ?_
  exact absurd ((hkeys key).mp hkey) (by simp [hheld key])

theorem charged_iff_of_mem {keys : Finset κ} (hkeys : ∀ key, key ∈ keys ↔ held key = true) :
    Charged charge held used ↔ used = ∑ key ∈ keys, charge key := by
  constructor
  · rintro ⟨others, hothers, rfl⟩
    have heq : others = keys := Finset.ext fun key => (hothers key).trans (hkeys key).symm
    rw [heq]
  · exact fun h => ⟨keys, hkeys, h⟩

variable [DecidableEq κ]

theorem sum_insert_or_erase (charge : κ → ℕ) (keys : Finset κ) (key : κ) (now : Bool) :
    (∑ other ∈ if now then insert key keys else keys.erase key, charge other) +
        (if key ∈ keys then charge key else 0) =
      ∑ other ∈ keys, charge other + now.toNat * charge key := by
  by_cases hmem : key ∈ keys
  · have herase := Finset.add_sum_erase keys charge hmem
    cases now with
    | false => simp only [hmem, Bool.toNat_false, if_true, Bool.false_eq_true, if_false]; omega
    | true => simp only [hmem, Finset.insert_eq_of_mem, Bool.toNat_true, if_true]; omega
  · cases now with
    | false => simp [hmem]
    | true =>
      simp only [hmem, if_true, if_false, Finset.sum_insert hmem, Bool.toNat_true]
      omega

theorem Charged.update_iff (h : Charged charge held used) (key : κ) (now : Bool) (rest : ℕ) :
    Charged charge (Function.update held key now) rest ↔
      rest + (held key).toNat * charge key = used + now.toNat * charge key := by
  obtain ⟨keys, hkeys, rfl⟩ := h
  have hnow : ∀ other, (other ∈ if now then insert key keys else keys.erase key) ↔
      Function.update held key now other = true := by
    intro other
    by_cases hother : other = key
    · subst hother
      cases now <;> simp
    · cases now <;> simp [hother, hkeys]
  have hsum := sum_insert_or_erase charge keys key now
  have hheld : (if key ∈ keys then charge key else 0) = (held key).toNat * charge key := by
    cases hkey : held key <;> simp [hkeys, hkey]
  rw [charged_iff_of_mem hnow]
  omega

/-- A step that takes the charge of a key, gives it back, does both or neither, leaves the amount
exact just when the key is held by as much more. -/
theorem Charged.step_iff (h : Charged charge held used) (hpos : 0 < charge key)
    {takes gives : Bool} (now : Bool) (hgives : gives = true → takes = true ∨ held key = true) :
    Charged charge (Function.update held key now)
        (used + takes.toNat * charge key - gives.toNat * charge key) ↔
      takes.toNat + (held key).toNat = gives.toNat + now.toNat := by
  rw [h.update_iff]
  have hle : held key = true → charge key ≤ used := h.le
  cases takes <;> cases gives <;> cases hheld : held key <;> cases now <;>
    simp_all <;> omega

end ShardKv
