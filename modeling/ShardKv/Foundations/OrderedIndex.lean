import Mathlib.Data.List.Sort

/-!
# Ordered sets with positions

`OrderedIndex` is the contract of an ordered set that can also be asked for the
position of an element and for the element at a position. Every operation is
specified through the sorted enumeration `iter`. Sorted lists satisfy the
contract, so it has an executable model.
-/
namespace ShardKv

universe u

/-- An ordered set whose observers are all determined by its strictly sorted enumeration. -/
structure OrderedIndex (α : Type u) [LinearOrder α] where
  Carrier : Type u
  new : Carrier
  insert : Carrier → α → Carrier
  remove : Carrier → α → Carrier
  iter : Carrier → List α
  len : Carrier → ℕ
  getFirst : Carrier → Option α
  getLast : Carrier → Option α
  getIndexFromKey : Carrier → α → Option ℕ
  getKeyFromIndex : Carrier → ℕ → Option α
  iter_new : iter new = []
  iter_sorted : ∀ s, (iter s).Pairwise (· < ·)
  mem_iter_insert : ∀ s x a, a ∈ iter (insert s x) ↔ a = x ∨ a ∈ iter s
  mem_iter_remove : ∀ s x a, a ∈ iter (remove s x) ↔ a ≠ x ∧ a ∈ iter s
  len_eq : ∀ s, len s = (iter s).length
  getFirst_eq : ∀ s, getFirst s = (iter s).head?
  getLast_eq : ∀ s, getLast s = (iter s).getLast?
  getIndexFromKey_eq : ∀ s x, getIndexFromKey s x = (iter s).findIdx? (· = x)
  getKeyFromIndex_eq : ∀ s i, getKeyFromIndex s i = (iter s)[i]?

/-- Ordered insertion of a new element keeps a list strictly sorted. -/
theorem pairwise_lt_orderedInsert {α : Type*} [LinearOrder α] {x : α} {xs : List α}
    (hs : xs.Pairwise (· < ·)) (hx : x ∉ xs) :
    (xs.orderedInsert (· ≤ ·) x).Pairwise (· < ·) := by
  have hle := (hs.imp le_of_lt).orderedInsert x xs
  have hnodup := (List.perm_orderedInsert (· ≤ ·) x xs).nodup_iff.mpr
      (List.nodup_cons.mpr ⟨hx, hs.imp ne_of_lt⟩)
  exact (hle.and hnodup).imp fun h => lt_of_le_of_ne h.1 h.2

/-- Strictly sorted lists implement the contract. -/
def sortedListIndex (α : Type u) [LinearOrder α] : OrderedIndex α where
  Carrier := { xs : List α // xs.Pairwise (· < ·) }
  new := ⟨[], List.Pairwise.nil⟩
  insert s x := ⟨(s.1.filter (· ≠ x)).orderedInsert (· ≤ ·) x,
    pairwise_lt_orderedInsert (s.2.filter _) (by simp)⟩
  remove s x := ⟨s.1.filter (· ≠ x), s.2.filter _⟩
  iter s := s.1
  len s := s.1.length
  getFirst s := s.1.head?
  getLast s := s.1.getLast?
  getIndexFromKey s x := s.1.findIdx? (· = x)
  getKeyFromIndex s i := s.1[i]?
  iter_new := rfl
  iter_sorted s := s.2
  mem_iter_insert s x a := by
    by_cases h : a = x <;> simp [h]
  mem_iter_remove s x a := by simp [and_comm]
  len_eq _ := rfl
  getFirst_eq _ := rfl
  getLast_eq _ := rfl
  getIndexFromKey_eq _ _ := rfl
  getKeyFromIndex_eq _ _ := rfl

end ShardKv
