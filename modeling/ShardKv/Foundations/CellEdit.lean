import Mathlib.Data.List.Basic

/-!
# Edits of one optional cell

A cell is written, dropped, or amended in place when it is occupied. Any
sequence of such edits has one net edit, and a net edit either forgets what the
cell held before or leaves an empty cell empty. This is what lets a log be
replayed over a state that already contains part of it.
-/
namespace ShardKv

universe u v

/-- A change of a stored value of which only the latest counts. -/
structure Amendment (ν : Type u) (δ : Type v) where
  amend : δ → ν → ν
  amend_amend : ∀ change earlier value, amend change (amend earlier value) = amend change value

inductive CellEdit (ν : Type u) (δ : Type v)
  | keep
  | amend (change : δ)
  | put (value : ν)
  | drop
  deriving DecidableEq

namespace CellEdit

variable {ν : Type u} {δ : Type v} (A : Amendment ν δ)

def apply : CellEdit ν δ → Option ν → Option ν
  | keep, cell => cell
  | amend change, cell => cell.map (A.amend change)
  | put value, _ => some value
  | drop, _ => none

/-- One edit and then another, as a single edit. -/
def andThen : CellEdit ν δ → CellEdit ν δ → CellEdit ν δ
  | first, keep => first
  | keep, amend change => amend change
  | amend _, amend change => amend change
  | put value, amend change => put (A.amend change value)
  | drop, amend _ => drop
  | _, put value => put value
  | _, drop => drop

/-- The net edit of a sequence. -/
def net (edits : List (CellEdit ν δ)) : CellEdit ν δ := edits.foldl (andThen A) keep

/-- The edits that do not depend on what the cell held. -/
def Overwrites : CellEdit ν δ → Prop
  | put _ => True
  | drop => True
  | _ => False

variable {A}

theorem apply_andThen (first second : CellEdit ν δ) (cell : Option ν) :
    (andThen A first second).apply A cell = second.apply A (first.apply A cell) := by
  cases second with
  | keep => rfl
  | put | drop => cases first <;> rfl
  | amend change =>
    cases first with
    | keep | put | drop => rfl
    | amend earlier =>
      cases cell with
      | none => rfl
      | some value => exact congrArg some (A.amend_amend change earlier value).symm

theorem apply_apply (edit : CellEdit ν δ) (cell : Option ν) :
    edit.apply A (edit.apply A cell) = edit.apply A cell := by
  cases edit with
  | keep | put | drop => rfl
  | amend change =>
    cases cell with
    | none => rfl
    | some value => exact congrArg some (A.amend_amend change change value)

theorem foldl_andThen_apply (edits : List (CellEdit ν δ)) :
    ∀ (first : CellEdit ν δ) (cell : Option ν), (edits.foldl (andThen A) first).apply A cell =
        edits.foldl (fun cell edit => edit.apply A cell) (first.apply A cell) := by
  induction edits with
  | nil => exact fun _ _ => rfl
  | cons edit edits ih =>
    intro first cell
    rw [List.foldl_cons, List.foldl_cons, ih, apply_andThen]

/-- The net edit does what the edits do one after the other. -/
theorem net_apply (edits : List (CellEdit ν δ)) (cell : Option ν) :
    (net A edits).apply A cell = edits.foldl (fun cell edit => edit.apply A cell) cell :=
  foldl_andThen_apply edits keep cell

theorem Overwrites.apply_eq {edit : CellEdit ν δ} (h : edit.Overwrites) (cell other : Option ν) :
    edit.apply A cell = edit.apply A other := by
  cases edit with
  | put | drop => rfl
  | keep | amend => exact h.elim

theorem apply_none_of_not_overwrites {edit : CellEdit ν δ} (h : ¬ edit.Overwrites) :
    edit.apply A none = none := by
  cases edit with
  | put => exact absurd trivial h
  | drop | keep | amend => rfl

/-- A cell that an edit has just been applied to is not changed by it again, and
this survives a further edit of an occupied cell. -/
theorem andThen_fixed {first second : CellEdit ν δ} {value : ν}
    (h : first.apply A (some value) = some value) :
    (andThen A first second).apply A (second.apply A (some value)) =
      second.apply A (some value) := by
  rw [apply_andThen]
  cases second with
  | keep => exact h
  | put | drop => rfl
  | amend change =>
    cases first with
    | keep => exact congrArg some (A.amend_amend change change value)
    | drop => cases h
    | put =>
      cases h
      rfl
    | amend earlier =>
      change some (A.amend change (A.amend earlier (A.amend change value))) = _
      rw [A.amend_amend, A.amend_amend]
      rfl

end CellEdit
end ShardKv
