import Mathlib.Tactic
import ShardKv.Foundations.Succeeds

/-!
# Fixed-capacity rings of optional slots

A ring stores its elements in a vector of `cap` optional slots, starting at
`head` and wrapping around. Nothing here mentions a particular client: the
operations are the usual double-ended ones, and `Denotes` relates a ring to
the list of its elements from front to back. Every operation has one theorem
that says what it does to that list.
-/
namespace ShardKv

/-- Slots, the physical position of the first element, and the element count. -/
structure Ring (α : Type*) (cap : ℕ) where
  entries : Vector (Option α) cap
  head : Fin cap
  len : ℕ

namespace Ring

variable {α : Type} {cap : ℕ} [NeZero cap]

def new : Ring α cap where
  entries := Vector.replicate cap none
  head := 0
  len := 0

section

variable (r : Ring α cap)

def isEmpty : Bool := r.len == 0

def isFull : Bool := r.len == cap

/-- Position of the slot that holds the element with logical index `i`. -/
def physicalIndex (i : ℕ) : Fin cap := Fin.ofNat cap (r.head + i)

/-- Overwrite one slot of a slot vector. -/
def putSlot (entries : Vector (Option α) cap) (i : Fin cap) (slot : Option α) :
    Vector (Option α) cap :=
  entries.set i slot

def get (i : ℕ) : Option α :=
  if i < r.len then r.entries.get (r.physicalIndex i) else none

def set (i : ℕ) (value : α) : Ring α cap :=
  { r with entries := putSlot r.entries (r.physicalIndex i) (some value) }

/-- Physical position of the front after one more element is put before it. -/
def headBefore : Fin cap :=
  if r.len = 0 then 0 else Fin.ofNat cap (r.head + cap - 1)

/-- Physical position of the front after the first element is removed; an
emptied ring restarts at slot zero. -/
def headAfter : Fin cap :=
  if r.len - 1 = 0 then 0 else Fin.ofNat cap (r.head + 1)

/-- A full ring hands the rejected value back. -/
def pushFront (value : α) : Except α (Ring α cap) :=
  if r.isFull then .error value
  else
    .ok { entries := putSlot r.entries r.headBefore (some value)
          head := r.headBefore
          len := r.len + 1 }

def pushBack (value : α) : Except α (Ring α cap) :=
  if r.isFull then .error value
  else
    .ok { entries := putSlot r.entries (r.physicalIndex r.len) (some value)
          head := r.head
          len := r.len + 1 }

def popFront : Option α × Ring α cap :=
  if r.len = 0 then (none, r)
  else
    (r.entries.get r.head,
      { entries := putSlot r.entries r.head none
        head := r.headAfter
        len := r.len - 1 })

def popBack : Option α × Ring α cap :=
  if r.len = 0 then (none, r)
  else
    (r.entries.get (r.physicalIndex (r.len - 1)),
      { entries := putSlot r.entries (r.physicalIndex (r.len - 1)) none
        head := if r.len - 1 = 0 then 0 else r.head
        len := r.len - 1 })

/-- Take `n` slots in logical order from index `i` on; an empty slot aborts the walk. -/
def takeFrom (r : Ring α cap) (entries : Vector (Option α) cap) (i : ℕ) :
    ℕ → Option (List α × Vector (Option α) cap)
  | 0 => some ([], entries)
  | n + 1 =>
    match entries.get (r.physicalIndex i) with
    | none => none
    | some value =>
      (takeFrom r (putSlot entries (r.physicalIndex i) none) (i + 1) n).map
        fun rest => (value :: rest.1, rest.2)

/-- Drain the ring; `none` reports an occupied index without a value. -/
def takeAll : Option (List α × Ring α cap) :=
  (r.takeFrom r.entries 0 r.len).map fun out => (out.1, { entries := out.2, head := 0, len := 0 })

/-- The ring stores exactly `xs`, front to back. -/
structure Denotes (r : Ring α cap) (xs : List α) : Prop where
  len_eq : r.len = xs.length
  length_le : xs.length ≤ cap
  slot : ∀ i < xs.length, r.entries.get (r.physicalIndex i) = xs[i]?

theorem val_physicalIndex {i : ℕ} (hi : i ≤ cap) : (r.physicalIndex i : ℕ) =
      if (r.head : ℕ) + i < cap then (r.head : ℕ) + i else r.head + i - cap := by
  change ((r.head : ℕ) + i) % cap = _
  split_ifs with hlt
  · exact Nat.mod_eq_of_lt hlt
  · rw [Nat.mod_eq_sub_mod (by omega), Nat.mod_eq_of_lt (by omega)]

theorem physicalIndex_zero : r.physicalIndex 0 = r.head := by
  apply Fin.ext
  exact Nat.mod_eq_of_lt r.head.isLt

theorem physicalIndex_injective {i j : ℕ} (hi : i < cap) (hj : j < cap)
    (h : r.physicalIndex i = r.physicalIndex j) : i = j := by
  have hv := congrArg Fin.val h
  rw [val_physicalIndex r hi.le, val_physicalIndex r hj.le] at hv
  split_ifs at hv <;> omega

theorem physicalIndex_of_head (s : Ring α cap) {n : ℕ} (hs : s.head = Fin.ofNat cap n) (i : ℕ) :
    s.physicalIndex i = Fin.ofNat cap (n + i) := by
  rw [physicalIndex, hs]
  exact Fin.ext (Nat.mod_add_mod n cap i)

/-- Moving the front back by one slot shifts every old logical index up by one. -/
theorem physicalIndex_headBefore (r s : Ring α cap) (hs : s.head = r.headBefore)
    (hr : r.len ≠ 0) (i : ℕ) : s.physicalIndex (i + 1) = r.physicalIndex i := by
  have hsum : (r.head : ℕ) + cap - 1 + (i + 1) = r.head + i + cap := by omega
  rw [physicalIndex_of_head s (hs.trans (if_neg hr)), hsum]
  exact Fin.ext (Nat.add_mod_right _ cap)

/-- Moving the front on by one slot shifts every remaining logical index down by one. -/
theorem physicalIndex_headAfter (r s : Ring α cap) (hs : s.head = r.headAfter)
    (hr : r.len - 1 ≠ 0) (i : ℕ) : s.physicalIndex i = r.physicalIndex (i + 1) := by
  rw [physicalIndex_of_head s (hs.trans (if_neg hr)), add_assoc, add_comm 1]
  rfl

omit [NeZero cap] in
theorem get_putSlot (entries : Vector (Option α) cap) (i j : Fin cap) (slot : Option α) :
    (putSlot entries i slot).get j = if i = j then slot else entries.get j := by
  change (entries.set i slot)[(j : ℕ)] = if i = j then slot else entries[(j : ℕ)]
  simp only [Vector.getElem_set, Fin.ext_iff]

omit [NeZero cap] in
@[simp] theorem get_putSlot_self (entries : Vector (Option α) cap) (i : Fin cap)
    (slot : Option α) : (putSlot entries i slot).get i = slot := by
  rw [get_putSlot, if_pos rfl]

/-- A write to one logical position leaves every other one alone. -/
theorem get_putSlot_physicalIndex_ne (entries : Vector (Option α) cap)
    {i j : ℕ} (hi : i < cap) (hj : j < cap) (hij : i ≠ j) (slot : Option α) :
    (putSlot entries (r.physicalIndex i) slot).get (r.physicalIndex j) =
      entries.get (r.physicalIndex j) := by
  rw [get_putSlot, if_neg]
  exact fun he => hij (r.physicalIndex_injective hi hj he)

end

theorem denotes_new : (new : Ring α cap).Denotes [] where
  len_eq := rfl
  length_le := Nat.zero_le _
  slot := by simp

namespace Denotes

variable {r : Ring α cap} {xs : List α}

section

variable (h : r.Denotes xs)
include h

theorem isEmpty_eq : r.isEmpty = xs.isEmpty := by
  cases xs <;> simp [isEmpty, h.len_eq]

theorem isFull_iff : r.isFull = true ↔ xs.length = cap := by
  simp [isFull, h.len_eq]

theorem get_eq (i : ℕ) : r.get i = xs[i]? := by
  unfold get
  split_ifs with hi
  · exact h.slot i (h.len_eq ▸ hi)
  · rw [h.len_eq] at hi
    exact (List.getElem?_eq_none (by omega)).symm

theorem set {i : ℕ} (hi : i < xs.length) (value : α) :
    (r.set i value).Denotes (xs.set i value) where
  len_eq := by simp [Ring.set, h.len_eq]
  length_le := by simpa using h.length_le
  slot := by
    intro j hj
    rw [List.length_set] at hj
    have hle := h.length_le
    change (putSlot r.entries (r.physicalIndex i) (some value)).get (r.physicalIndex j) = _
    by_cases hij : i = j
    · subst j
      simp [hi]
    · rw [r.get_putSlot_physicalIndex_ne _ (by omega) (by omega) hij, h.slot j hj,
        List.getElem?_set_ne hij]

theorem pushBack (hlt : xs.length < cap) (value : α) :
    Succeeds (r.pushBack value) (·.Denotes (xs ++ [value])) := by
  have hfull : ¬ r.isFull = true := fun hf => hlt.ne (h.isFull_iff.mp hf)
  refine ⟨_, if_neg hfull, by simp [h.len_eq], by simpa using hlt, ?_⟩
  intro j hj
  rw [List.length_append, List.length_singleton] at hj
  change (putSlot r.entries (r.physicalIndex r.len) (some value)).get (r.physicalIndex j) = _
  rw [h.len_eq]
  by_cases hjl : xs.length = j
  · subst j
    simp
  · rw [r.get_putSlot_physicalIndex_ne _ hlt (by omega) hjl, h.slot j (by omega),
      List.getElem?_append_left (by omega)]

theorem pushFront (hlt : xs.length < cap) (value : α) :
    Succeeds (r.pushFront value) (·.Denotes (value :: xs)) := by
  have hfull : ¬ r.isFull = true := fun hf => hlt.ne (h.isFull_iff.mp hf)
  refine ⟨_, if_neg hfull, by simp [h.len_eq], by simpa using hlt, ?_⟩
  intro j hj
  rw [List.length_cons] at hj
  set s : Ring α cap :=
    { entries := putSlot r.entries r.headBefore (some value)
      head := r.headBefore
      len := r.len + 1 } with hs
  change (putSlot r.entries s.head (some value)).get (s.physicalIndex j) = _
  rw [← s.physicalIndex_zero]
  rcases j with _ | j
  · simp
  · have hlen := h.len_eq
    rw [s.get_putSlot_physicalIndex_ne _ (by omega) (by omega) (by omega),
      physicalIndex_headBefore r s rfl (by omega), h.slot j (by omega),
      List.getElem?_cons_succ]

end

theorem popFront_cons {x : α} (h : r.Denotes (x :: xs)) :
    ∃ r', r.popFront = (some x, r') ∧ r'.Denotes xs := by
  have hlen : r.len = xs.length + 1 := h.len_eq
  have hle : xs.length + 1 ≤ cap := h.length_le
  have hx : r.entries.get r.head = some x := by
    rw [← r.physicalIndex_zero]
    simpa using h.slot 0 (by simp)
  refine ⟨_, (if_neg (by omega)).trans (by rw [hx]), by simp [hlen], by omega, ?_⟩
  intro j hj
  set s : Ring α cap :=
    { entries := putSlot r.entries r.head none, head := r.headAfter, len := r.len - 1 } with hs
  change (putSlot r.entries r.head none).get (s.physicalIndex j) = _
  rw [← r.physicalIndex_zero, physicalIndex_headAfter r s rfl (by omega),
    r.get_putSlot_physicalIndex_ne _ (by omega) (by omega) (by omega),
    h.slot (j + 1) (by simpa using hj), List.getElem?_cons_succ]

theorem popFront (h : r.Denotes xs) :
    r.popFront.1 = xs.head? ∧ r.popFront.2.Denotes xs.tail := by
  cases xs with
  | nil =>
    have hlen : r.len = 0 := h.len_eq
    rw [Ring.popFront, if_pos hlen]
    exact ⟨rfl, h⟩
  | cons x xs =>
    obtain ⟨r', hpop, hd⟩ := h.popFront_cons
    rw [hpop]
    exact ⟨rfl, hd⟩

theorem popBack_concat {x : α} (h : r.Denotes (xs ++ [x])) :
    ∃ r', r.popBack = (some x, r') ∧ r'.Denotes xs := by
  have hlen : r.len - 1 = xs.length := by simp [h.len_eq]
  have hpos : r.len ≠ 0 := by simp [h.len_eq]
  have hle : xs.length + 1 ≤ cap := by simpa using h.length_le
  have hx : r.entries.get (r.physicalIndex (r.len - 1)) = some x := by
    simpa [hlen] using h.slot xs.length (by simp)
  refine ⟨_, (if_neg hpos).trans (by rw [hx]), by simp [hlen], by omega, ?_⟩
  intro j hj
  rw [hlen, if_neg (by omega)]
  change (putSlot r.entries (r.physicalIndex xs.length) none).get (r.physicalIndex j) = _
  rw [r.get_putSlot_physicalIndex_ne _ (by omega) (by omega) (by omega),
    h.slot j (by simp; omega), List.getElem?_append_left hj]

theorem popBack (h : r.Denotes xs) :
    r.popBack.1 = xs.getLast? ∧ r.popBack.2.Denotes xs.dropLast := by
  induction xs using List.reverseRecOn with
  | nil =>
    have hlen : r.len = 0 := h.len_eq
    rw [Ring.popBack, if_pos hlen]
    exact ⟨rfl, h⟩
  | append_singleton xs x _ =>
    obtain ⟨r', hpop, hd⟩ := h.popBack_concat
    rw [hpop, List.getLast?_concat, List.dropLast_concat]
    exact ⟨rfl, hd⟩

end Denotes

/-- The walk reads slot after slot and clears only slots it has already read. -/
theorem takeFrom_eq (r : Ring α cap) (xs : List α) :
    ∀ (entries : Vector (Option α) cap) (i : ℕ), i + xs.length ≤ cap →
      (∀ j < xs.length, entries.get (r.physicalIndex (i + j)) = xs[j]?) →
        ∃ out, r.takeFrom entries i xs.length = some (xs, out) := by
  induction xs with
  | nil => exact fun entries i _ _ => ⟨entries, rfl⟩
  | cons x xs ih =>
    intro entries i hi hslot
    rw [List.length_cons] at hi
    have hx : entries.get (r.physicalIndex i) = some x := by simpa using hslot 0 (by simp)
    have hrest : ∀ j < xs.length,
        (putSlot entries (r.physicalIndex i) none).get (r.physicalIndex (i + 1 + j)) = xs[j]? := by
      intro j hj
      rw [r.get_putSlot_physicalIndex_ne _ (by omega) (by omega) (by omega),
        show i + 1 + j = i + (j + 1) by omega, hslot (j + 1) (by simpa using hj),
        List.getElem?_cons_succ]
    obtain ⟨out, hout⟩ := ih _ (i + 1) (by omega) hrest
    refine ⟨out, ?_⟩
    simp only [List.length_cons, takeFrom]
    rw [hx, hout]
    rfl

theorem Denotes.takeAll {r : Ring α cap} {xs : List α} (h : r.Denotes xs) :
    ∃ r', r.takeAll = some (xs, r') ∧ r'.Denotes [] := by
  obtain ⟨out, hout⟩ := r.takeFrom_eq xs r.entries 0 (by simpa using h.length_le)
    (by simpa using h.slot)
  exact ⟨{ entries := out, head := 0, len := 0 }, by simp [Ring.takeAll, h.len_eq, hout],
    rfl, Nat.zero_le _, by simp⟩

end Ring
end ShardKv
