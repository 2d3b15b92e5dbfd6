import Mathlib.Data.List.Infix

/-!
# Histories and safe steps

A history is a list of calls, run from left to right. When a step that is safe in
the state it meets keeps an invariant, and one that is not safe visibly breaks
what the invariant is for, then the property holds along a whole history exactly
when every call of it is safe.
-/
namespace ShardKv

universe u v

variable {S : Type u} {C : Type v}

/-- Every call of the history is safe in the state it meets. -/
def SafeRun (step : S → C → S) (Safe : S → C → Prop) : S → List C → Prop
  | _, [] => True
  | s, c :: cs => Safe s c ∧ SafeRun step Safe (step s c) cs

variable {step : S → C → S} {Safe : S → C → Prop} {Inv Good : S → Prop}

instance decidableSafeRun [∀ s c, Decidable (Safe s c)] :
    ∀ s cs, Decidable (SafeRun step Safe s cs)
  | _, [] => .isTrue trivial
  | s, c :: cs => @instDecidableAnd _ _ _ (decidableSafeRun (step s c) cs)

theorem SafeRun.invariant (hsafe : ∀ s c, Inv s → Safe s c → Inv (step s c)) (cs : List C) :
    ∀ s, Inv s → SafeRun step Safe s cs → Inv (cs.foldl step s) := by
  induction cs with
  | nil => exact fun _ hs _ => hs
  | cons c cs ih => exact fun s hs hrun => ih (step s c) (hsafe s c hs hrun.1) hrun.2

theorem safeRun_const {P : C → Prop} (cs : List C) :
    ∀ s, SafeRun step (fun _ c => P c) s cs ↔ ∀ c ∈ cs, P c := by
  induction cs with
  | nil => simp [SafeRun]
  | cons c cs ih => simp [SafeRun, ih]

theorem SafeRun.front {front cs : List C} (h : front <+: cs) :
    ∀ {s}, SafeRun step Safe s cs → SafeRun step Safe s front := by
  induction front generalizing cs with
  | nil => exact fun _ => trivial
  | cons c front ih =>
    intro s hrun
    obtain ⟨rest, rfl⟩ := h
    exact ⟨hrun.1, ih ⟨rest, rfl⟩ hrun.2⟩

/-- Along a history the property holds throughout exactly when all its calls are safe. -/
theorem safeRun_iff_forall_good (hgood : ∀ s, Inv s → Good s)
    (hsafe : ∀ s c, Inv s → Safe s c → Inv (step s c))
    (hbreaks : ∀ s c, Inv s → ¬ Safe s c → ¬ Good (step s c)) (cs : List C) :
    ∀ s, Inv s → (SafeRun step Safe s cs ↔ ∀ front, front <+: cs → Good (front.foldl step s)) := by
  intro s hs
  constructor
  · intro hrun front hfront
    exact hgood _ (SafeRun.invariant hsafe front s hs (hrun.front hfront))
  · induction cs generalizing s with
    | nil => exact fun _ => trivial
    | cons c cs ih =>
      intro hall
      have hnext : Good (step s c) := hall [c] (by simp)
      have hc : Safe s c := by
        by_contra hbad
        exact hbreaks s c hs hbad hnext
      refine ⟨hc, ih (step s c) (hsafe s c hs hc) ?_⟩
      intro front hfront
      exact hall (c :: front) (List.cons_prefix_cons.mpr ⟨rfl, hfront⟩)

end ShardKv
