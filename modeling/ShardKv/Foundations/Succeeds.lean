import Mathlib.Data.List.Basic

/-!
# Computations that succeed

A total-correctness reading of `Except`: a computation returns a value, and the
value satisfies a postcondition. The rules follow the shape of a `do` block, so
that a specification is chained from those of the parts.
-/
namespace ShardKv

/-- The computation returns a value with the given property. -/
abbrev Succeeds {ε α : Type} (x : Except ε α) (post : α → Prop) : Prop := ∃ a, x = .ok a ∧ post a

namespace Succeeds

variable {ε α β : Type} {x : Except ε α} {post : α → Prop} {f : α → Except ε β}
  {after : β → Prop}

theorem ok {a : α} (h : post a) : Succeeds (.ok a : Except ε α) post := ⟨a, rfl, h⟩

theorem bind (h : Succeeds x post) (hf : ∀ a, post a → Succeeds (f a) after) :
    Succeeds (x >>= f) after := by
  obtain ⟨a, rfl, ha⟩ := h
  exact hf a ha

theorem bind_eq {a : α} (h : x = .ok a) (hf : Succeeds (f a) after) : Succeeds (x >>= f) after := by
  subst h
  exact hf

theorem map {g : α → β} (h : Succeeds x fun a => after (g a)) :
    Succeeds (x >>= fun a => .ok (g a)) after :=
  h.bind fun _ ha => .ok ha

end Succeeds
end ShardKv
