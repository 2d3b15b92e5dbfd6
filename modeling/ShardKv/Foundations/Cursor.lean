import Mathlib.Data.List.Basic

/-!
# Cursors and the lists they produce

A cursor is a state with a `next` function, as external iterators have. The
relation `Yields` says that a cursor produces exactly the elements of a list
and then stops, with no bound on the number of steps.
-/
namespace ShardKv

/-- Starting at `s`, repeated calls of `next` return the elements of the list and then `none`. -/
def Yields {σ α : Type*} (next : σ → Option (α × σ)) : σ → List α → Prop
  | s, [] => next s = none
  | s, x :: xs => ∃ s', next s = some (x, s') ∧ Yields next s' xs

theorem Yields.map {σ τ α : Type*} {next : σ → Option (α × σ)} {next' : τ → Option (α × τ)}
    (f : σ → τ) (hf : ∀ s, next' (f s) = (next s).map fun out => (out.1, f out.2)) :
    ∀ {xs : List α} {s : σ}, Yields next s xs → Yields next' (f s) xs
  | [], s, h => by
    have h : next s = none := h
    simp [Yields, hf, h]
  | x :: xs, s, h => by
    obtain ⟨s', hs, hx⟩ := h
    exact ⟨f s', by simp [hf, hs], hx.map f hf⟩


end ShardKv
