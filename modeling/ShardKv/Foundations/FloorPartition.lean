import Mathlib.Algebra.Order.Floor.Div
import Mathlib.Data.Nat.Count
import Mathlib.Order.Interval.Finset.Nat
import Mathlib.Tactic.Linarith

/-!
# Partitions by rounded quotients

Two ways to divide a sequence into parts by a rounded quotient. Cuts at `p * size / parts`
give consecutive chunks, none of them empty unless there are more parts than items. Labels
`offset * parts / size` give each part a number of offsets that differs by at most one from
that of any other.
-/
namespace ShardKv.FloorPartition

open List
variable {α β : Type} {part size parts : ℕ}

/-- Where a part begins. -/
def cut (size parts part : ℕ) : ℕ := part * size / parts

/-- The items of one part. -/
def chunk (items : List α) (parts part : ℕ) : List α :=
  (items.drop (cut items.length parts part)).take
    (cut items.length parts (part + 1) - cut items.length parts part)

theorem chunk_sublist (items : List α) (parts part : ℕ) : (chunk items parts part).Sublist items :=
  (take_sublist _ _).trans (drop_sublist _ _)

theorem disjoint_chunk {items : List α} (parts : ℕ) {later : ℕ} {f : α → List β}
    (hnodup : (items.flatMap f).Nodup) (h : part < later) :
    ((chunk items parts part).flatMap f).Disjoint ((chunk items parts later).flatMap f) := by
  -- The items before the end of the first part, and those after it.
  have hsplit := take_append_drop (cut items.length parts (part + 1)) items
  rw [← hsplit, flatMap_append] at hnodup
  have hdisjoint := disjoint_of_nodup_append hnodup
  have hbefore : chunk items parts part ⊆ items.take (cut items.length parts (part + 1)) := by
    rw [chunk, ← drop_take]
    exact drop_subset _ _
  have hafter : chunk items parts later ⊆ items.drop (cut items.length parts (part + 1)) := by
    have hcut : cut items.length parts (part + 1) ≤ cut items.length parts later :=
      Nat.div_le_div_right (Nat.mul_le_mul_right _ (Nat.succ_le_of_lt h))
    refine List.Subset.trans (take_subset _ _) ?_
    rw [← Nat.add_sub_cancel' hcut, ← drop_drop]
    exact drop_subset _ _
  intro value hfirst hsecond
  obtain ⟨first, hmem, hvalue⟩ := mem_flatMap.mp hfirst
  obtain ⟨second, hmem', hvalue'⟩ := mem_flatMap.mp hsecond
  exact hdisjoint (mem_flatMap.mpr ⟨first, hbefore hmem, hvalue⟩)
    (mem_flatMap.mpr ⟨second, hafter hmem', hvalue'⟩)

/-- The part of an offset. -/
def label (size parts offset : ℕ) : ℕ := offset * parts / size

theorem label_lt {offset : ℕ} (hparts : 0 < parts) (h : offset < size) :
    label size parts offset < parts := by
  refine Nat.div_lt_of_lt_mul ?_
  exact Nat.mul_lt_mul_of_pos_right h hparts

theorem label_eq_iff {offset : ℕ} (hsize : 0 < size) (hparts : 0 < parts) :
    label size parts offset = part ↔
      part * size ⌈/⌉ parts ≤ offset ∧ offset < (part + 1) * size ⌈/⌉ parts := by
  rw [← Nat.not_le, ceilDiv_le_iff_le_mul hparts, ceilDiv_le_iff_le_mul hparts,
    mul_comm parts, ← Nat.le_div_iff_mul_le hsize, ← Nat.le_div_iff_mul_le hsize, label]
  omega

theorem mul_ceilDiv_lt (hparts : 0 < parts) (n : ℕ) : parts * (n ⌈/⌉ parts) < n + parts := by
  rw [Nat.ceilDiv_eq_add_pred_div]
  have := Nat.mul_div_le (n + parts - 1) parts
  omega

theorem le_mul_ceilDiv (hparts : 0 < parts) (n : ℕ) : n ≤ parts * (n ⌈/⌉ parts) :=
  (ceilDiv_le_iff_le_mul hparts).mp le_rfl

theorem countP_range (p : ℕ → Bool) (n : ℕ) :
    (List.range n).countP p = ((Finset.range n).filter (p · = true)).card := by
  rw [← Nat.count_eq_card_filter_range]
  induction n with
  | zero => rfl
  | succ n ih => rw [range_succ, countP_append, ih, Nat.count_succ, countP_singleton]

/-- Each part has as many offsets as the quotient, or one more. -/
theorem count_label (hsize : 0 < size) (hpart : part < parts) :
    size / parts ≤ (List.range size).countP (label size parts · = part) ∧
      (List.range size).countP (label size parts · = part) ≤ size / parts + 1 := by
  have hparts : 0 < parts := Nat.zero_lt_of_lt hpart
  have hend : (part + 1) * size ⌈/⌉ parts ≤ size := by
    rw [ceilDiv_le_iff_le_mul hparts]
    exact Nat.mul_le_mul_right size hpart
  have hoffsets : (Finset.range size).filter (fun offset => label size parts offset = part) =
      Finset.Ico (part * size ⌈/⌉ parts) ((part + 1) * size ⌈/⌉ parts) := by
    ext offset
    rw [Finset.mem_filter, Finset.mem_range, Finset.mem_Ico, label_eq_iff hsize hparts]
    omega
  rw [countP_range]
  simp only [decide_eq_true_eq]
  rw [hoffsets, Nat.card_Ico]
  -- Both ends are the exact quotients, rounded up by less than one.
  have hfirst := le_mul_ceilDiv hparts (part * size)
  have hfirst' := mul_ceilDiv_lt hparts (part * size)
  have hlast := le_mul_ceilDiv hparts ((part + 1) * size)
  have hlast' := mul_ceilDiv_lt hparts ((part + 1) * size)
  have hquotient := Nat.mul_div_le size parts
  have hquotient' := Nat.lt_mul_div_succ size hparts
  generalize part * size ⌈/⌉ parts = first at hfirst hfirst' ⊢
  generalize (part + 1) * size ⌈/⌉ parts = last at hlast hlast' ⊢
  generalize size / parts = quotient at hquotient hquotient' ⊢
  rw [Nat.succ_mul] at hlast hlast'
  have hupper : last < first + (quotient + 2) := by
    refine Nat.lt_of_mul_lt_mul_left (a := parts) ?_
    linarith
  have hlower : first + quotient < last + 1 := by
    refine Nat.lt_of_mul_lt_mul_left (a := parts) ?_
    linarith
  omega

end ShardKv.FloorPartition
