import Mathlib.Logic.Basic

/-!
# Merging documents

`JSON.MERGE` is meant to be the merge patch of RFC 7396. The two differ where an object of the patch
meets something that is no object: it is stored as it is, with its null members.
-/
namespace ShardKv

/-- A document as far as merging looks at it: an object says what it has under every key, `missing`
for all but some, and a value without members, an array too, is replaced as a whole. -/
inductive JsonValue (κ α : Type)
  | missing
  | null
  | plain (value : α)
  | object (members : κ → JsonValue κ α)

namespace JsonValue

variable {κ α : Type} (target patch : JsonValue κ α)

/-- What a member of the patch leaves under its key, of what was there and what is merged. -/
def leaves : JsonValue κ α → JsonValue κ α → JsonValue κ α → JsonValue κ α
  | missing, kept, _ => kept
  | null, _, _ => missing
  | _, _, merged => merged

/-- `json_merge_value`: every member of the patch is merged into the one of the same key. -/
def jsonMergeValue : JsonValue κ α → JsonValue κ α → JsonValue κ α
  | object target, object patch => object fun key =>
    (patch key).leaves (target key) (jsonMergeValue (target key) (patch key))
  | _, patch => patch

def member : JsonValue κ α → κ → JsonValue κ α
  | object members, key => members key
  | _, _ => missing

/-- The merge patch of RFC 7396. -/
def mergePatch : JsonValue κ α → JsonValue κ α → JsonValue κ α
  | target, object patch => object fun key =>
    (patch key).leaves (target.member key) (mergePatch (target.member key) (patch key))
  | _, patch => patch

def NullFree : JsonValue κ α → Prop
  | object members => ∀ key, members key ≠ null ∧ (members key).NullFree
  | _ => True

/-- Every object of the patch with a null member in it meets an object. -/
def Meets : JsonValue κ α → JsonValue κ α → Prop
  | object target, object patch => ∀ key, patch key = null ∨ Meets (target key) (patch key)
  | _, patch => patch.NullFree

variable {target} in
theorem eq_mergePatch_iff (h : ∀ key, target.member key = missing) :
    patch = mergePatch target patch ↔ patch.NullFree := by
  induction patch generalizing target with
  | object patch ih =>
    simp only [mergePatch, h, object.injEq, funext_iff, NullFree]
    apply forall_congr'
    intro key
    have hkey := @ih key missing fun _ => rfl
    generalize patch key = value at hkey ⊢
    cases value with
    | missing | null => simp [leaves, NullFree]
    | _ => simpa [leaves] using hkey
  | _ => simp [mergePatch, NullFree]

theorem jsonMergeValue_eq_mergePatch_iff :
    jsonMergeValue target patch = mergePatch target patch ↔ Meets target patch := by
  induction patch generalizing target with
  | object patch ih =>
    cases target with
    | object target =>
      simp only [jsonMergeValue, mergePatch, member, object.injEq, funext_iff, Meets]
      apply forall_congr'
      intro key
      have hkey := ih key (target key)
      generalize patch key = value at hkey ⊢
      cases value <;> simp_all [leaves, Meets, NullFree]
    | _ => exact eq_mergePatch_iff _ fun _ => rfl
  | _ => simp [jsonMergeValue, mergePatch, Meets, NullFree]

theorem jsonMergeValue_mergePatch :
    jsonMergeValue (mergePatch target patch) patch = mergePatch target patch := by
  induction patch generalizing target with
  | object patch ih =>
    simp only [jsonMergeValue, mergePatch, object.injEq]
    funext key
    have hkey := ih key (target.member key)
    generalize patch key = value at hkey ⊢
    cases value with
    | missing | null => rfl
    | _ => exact hkey
  | _ => rfl

/-- What stands at the end of a path through the objects. -/
def follow (value : JsonValue κ α) (path : List κ) : JsonValue κ α := path.foldl member value

theorem missing_follow (path : List κ) : (missing : JsonValue κ α).follow path = missing := by
  induction path with
  | nil => rfl
  | cons key path ih => exact ih

theorem mergePatch_follow (key : κ) (path : List κ) (hnull : patch.follow (key :: path) = null) :
    (mergePatch target patch).follow (key :: path) = missing := by
  induction patch generalizing target key path with
  | object patch ih =>
    cases path with
    | nil =>
      have hmember : patch key = null := hnull
      simp [follow, mergePatch, member, hmember, leaves]
    | cons next path =>
      cases hvalue : patch key with
      | object members =>
        have hmerged := ih key (target.member key) next path (by simpa [follow, member] using hnull)
        simpa [follow, mergePatch, member, hvalue, leaves] using hmerged
      | _ =>
        -- below a member that is no object the patch has nothing
        have hmissing : (patch key).follow (next :: path) = missing := by
          rw [hvalue]
          exact missing_follow path
        exact absurd (hmissing.symm.trans hnull) nofun
  | _ => exact absurd ((missing_follow path).symm.trans hnull) nofun

/-- The merge is the merge patch exactly when the objects of the patch that have null members meet
objects. It then leaves nothing for the same patch to do, and no null member of the patch is
stored. -/
theorem jsonMergeValue_eq_iff :
    (jsonMergeValue target patch = mergePatch target patch ↔ Meets target patch) ∧
      jsonMergeValue (mergePatch target patch) patch = mergePatch target patch ∧
      ∀ key path, patch.follow (key :: path) = null →
        (mergePatch target patch).follow (key :: path) = missing :=
  ⟨jsonMergeValue_eq_mergePatch_iff target patch, jsonMergeValue_mergePatch target patch,
    fun key path hnull => mergePatch_follow target patch key path hnull⟩

/-- An empty document is given the null that a new member of the patch has in it. -/
theorem jsonMergeValue_stores_null :
    let empty : JsonValue Bool Unit := object fun _ => missing
    let patch := object fun _ => object fun _ => null
    ((jsonMergeValue empty patch).member true).member true = null ∧
      ((mergePatch empty patch).member true).member true = missing :=
  ⟨rfl, rfl⟩

end JsonValue
end ShardKv
