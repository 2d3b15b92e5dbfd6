import Mathlib.Data.List.Basic

/-!
# Draining into a sink that accepts part of each offer

A `Sink` takes a nonempty front part of whatever it is offered; how much may
depend on everything it has received so far. `Sink.drain` is the write loop over
an arbitrary cursor: offer, check the reported amount, advance. A cursor that
offers a front part of what is left and advances by what was taken delivers
everything exactly once and in order.
-/
namespace ShardKv

universe u v w

/-- How much of an offer is taken, given what was received before. -/
structure Sink (α : Type u) where
  accept : List α → List α → ℕ
  accept_pos : ∀ received offered, offered ≠ [] → 0 < accept received offered
  accept_le : ∀ received offered, accept received offered ≤ offered.length

/-- The sink that takes every offer whole. -/
def Sink.whole (α : Type u) : Sink α where
  accept _ offered := offered.length
  accept_pos _ _ h := List.length_pos_iff.mpr h
  accept_le _ _ := Nat.le_refl _

/-- The write operations of one cursor type. -/
structure DrainOps (α : Type u) (β : Type v) (ε : Type w) where
  remaining : β → ℕ
  offer : β → List α
  /-- The checks on the amount reported by one write. -/
  reject : β → ℕ → Option ε
  advance : β → ℕ → β

variable {α : Type u} {β : Type v} {ε : Type w}

/-- Write until nothing remains; `none` means that the given number of writes was not enough. -/
def Sink.drain (sink : Sink α) (ops : DrainOps α β ε) : ℕ → β → List α → Option (Except ε (List α))
  | writes, cursor, received =>
    if ops.remaining cursor = 0 then some (.ok received)
    else
      match writes with
      | 0 => none
      | writes + 1 =>
        let offered := ops.offer cursor
        let written := sink.accept received offered
        match ops.reject cursor written with
        | some error => some (.error error)
        | none => sink.drain ops writes (ops.advance cursor written)
            (received ++ offered.take written)

/-- What makes a cursor deliver `rest`: offers are front parts of it, nonempty
while anything is left, and advancing drops what was taken. -/
structure DrainOps.Delivers (ops : DrainOps α β ε) (valid : β → Prop) (rest : β → List α) :
    Prop where
  remaining_eq : ∀ cursor, valid cursor → ops.remaining cursor = (rest cursor).length
  offer_isPrefix : ∀ cursor, valid cursor → ops.offer cursor <+: rest cursor
  offer_ne_nil : ∀ cursor, valid cursor → rest cursor ≠ [] → ops.offer cursor ≠ []
  reject_eq : ∀ cursor written, valid cursor → 0 < written →
    written ≤ (rest cursor).length → ops.reject cursor written = none
  advance_spec : ∀ cursor written, valid cursor → 0 < written → written ≤ (rest cursor).length →
      valid (ops.advance cursor written) ∧
        rest (ops.advance cursor written) = (rest cursor).drop written

theorem DrainOps.Delivers.drain_eq {ops : DrainOps α β ε} {valid : β → Prop} {rest : β → List α}
    (h : ops.Delivers valid rest) (sink : Sink α) (writes : ℕ) :
    ∀ {cursor : β} {received : List α}, valid cursor → (rest cursor).length ≤ writes →
      sink.drain ops writes cursor received = some (.ok (received ++ rest cursor)) := by
  induction writes with
  | zero =>
    intro cursor received hv hlen
    have hrest : rest cursor = [] := List.length_eq_zero_iff.mp (Nat.le_zero.mp hlen)
    unfold Sink.drain
    rw [if_pos (by rw [h.remaining_eq cursor hv, hrest, List.length_nil]), hrest, List.append_nil]
  | succ writes ih =>
    intro cursor received hv hlen
    unfold Sink.drain
    by_cases hrest : rest cursor = []
    · rw [if_pos (by rw [h.remaining_eq cursor hv, hrest, List.length_nil]), hrest, List.append_nil]
    · have hpos := sink.accept_pos received _ (h.offer_ne_nil cursor hv hrest)
      have hle := sink.accept_le received (ops.offer cursor)
      obtain ⟨suffix, hsuffix⟩ := h.offer_isPrefix cursor hv
      have hle' : sink.accept received (ops.offer cursor) ≤ (rest cursor).length := by
        rw [← hsuffix, List.length_append]
        omega
      obtain ⟨hv', hrest'⟩ := h.advance_spec cursor _ hv hpos hle'
      have htake : (ops.offer cursor).take (sink.accept received (ops.offer cursor)) =
          (rest cursor).take (sink.accept received (ops.offer cursor)) := by
        rw [← hsuffix, List.take_append_of_le_length hle]
      rw [if_neg (by rw [h.remaining_eq cursor hv]; simpa using hrest)]
      dsimp only
      rw [h.reject_eq cursor _ hv hpos hle']
      rw [ih hv' (by rw [hrest', List.length_drop]; omega), hrest', htake, List.append_assoc,
        List.take_append_drop]

end ShardKv
