import Mathlib.Data.List.Basic

/-!
# Filling a list position by position

Answers that arrive out of order are put into a list of empty slots, each at its
own position. Once every position had its turn, the list holds all answers.
-/
namespace ShardKv

universe u v

variable {α : Type u} {β : Type v} {content : α → List (Option β)}
  {record : α → ℕ → Option β → α} {target : List (Option β)} {acc : α}

/-- The positions that had their turn hold their answer, the others are empty. -/
def Filled (content : α → List (Option β)) (target : List (Option β)) (turns : List ℕ) (acc : α) :
    Prop :=
  ∀ i, (content acc)[i]? = if i ∈ turns then target[i]? else target[i]?.map fun _ => none

theorem Filled.start (h : content acc = List.replicate target.length none) :
    Filled content target [] acc := by
  intro i
  rw [h]
  by_cases hi : i < target.length
  · simp [hi]
  · simp [hi]

/-- A recorded answer fills its position; a missing one may leave it empty. -/
def Records (content : α → List (Option β)) (record : α → ℕ → Option β → α) : Prop :=
  ∀ acc i value, content (record acc i value) = (content acc).set i value ∨
    value = none ∧ content (record acc i value) = content acc

theorem Filled.turn {turns : List ℕ} {i : ℕ} {value : Option β} (hrecord : Records content record)
    (h : Filled content target turns acc) (hvalue : target[i]? = some value) :
    Filled content target (i :: turns) (record acc i value) := by
  have hlength : i < (content acc).length := by
    by_contra hout
    have hnone := h i
    rw [List.getElem?_eq_none (Nat.not_lt.mp hout), hvalue] at hnone
    split_ifs at hnone
    simp at hnone
  intro j
  rcases hrecord acc i value with hset | ⟨rfl, hsame⟩
  · rw [hset, List.getElem?_set]
    by_cases hj : i = j
    · subst hj
      simp [hlength, hvalue]
    · rw [if_neg hj, h j]
      simp [Ne.symm hj]
  · rw [hsame, h j]
    by_cases hj : j = i
    · subst hj
      simp [hvalue]
    · simp [hj]

theorem Filled.foldl {κ : Type} (hrecord : Records content record) (answer : κ → Option β)
    (items : List (κ × ℕ)) (hitems : ∀ item ∈ items, target[item.2]? = some (answer item.1)) :
    ∀ {turns : List ℕ} {acc : α}, Filled content target turns acc →
      Filled content target ((items.map (·.2)).reverse ++ turns)
        (items.foldl (fun acc item => record acc item.2 (answer item.1)) acc) := by
  induction items with
  | nil => exact fun h => h
  | cons item items ih =>
    intro turns acc h
    have hnext := h.turn hrecord (hitems item List.mem_cons_self)
    have hrest := ih (fun other hother => hitems other (List.mem_cons_of_mem _ hother)) hnext
    simpa using hrest

theorem Filled.done {turns : List ℕ} (h : Filled content target turns acc)
    (hall : ∀ i < target.length, i ∈ turns) : content acc = target := by
  apply List.ext_getElem?
  intro i
  rw [h i]
  by_cases hi : i < target.length
  · rw [if_pos (hall i hi)]
  · simp [hi]

end ShardKv
