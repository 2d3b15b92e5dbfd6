import ShardKv.Foundations.Bytes

/-!
# Glob patterns

The matcher of `KEYS` and `SCAN` compares what is before the first `*` with the start of the value
and all that is after it with the end, so the two may overlap and a second `*` is a plain byte.
-/
namespace ShardKv

open List

/-- `array.rs` has the same function for `ARGREP` as `glob_matches_bytes`. -/
def globMatches (pattern value : Bytes) : Bool :=
  if pattern = [42] then true
  else match pattern.idxOf? 42 with
    | some index =>
      (pattern.take index).isPrefixOf value && (pattern.drop (index + 1)).isSuffixOf value
    | none => pattern == value

/-- The value can be split so that every `*` stands for some of its bytes. -/
def StandsFor : Bytes → Bytes → Prop
  | [], value => value = []
  | byte :: pattern, value =>
    ∃ part rest, value = part ++ rest ∧ StandsFor pattern rest ∧ (byte = 42 ∨ part = [byte])

/-- There is at most one `*`, and not the same bytes on both sides of it. -/
def Separated (pattern : Bytes) : Prop :=
  pattern.count 42 ≤ 1 ∧ ∀ start shared rest,
    pattern = start ++ shared ++ 42 :: (shared ++ rest) → shared = []

variable {before after value : Bytes}

theorem globMatches_star (h : 42 ∉ before) :
    globMatches (before ++ 42 :: after) value ↔ before <+: value ∧ after <:+ value := by
  have hindex : (before ++ 42 :: after).idxOf? 42 = some before.length := by
    have hnone : before.findIdx? (· == 42) = none := idxOf?_eq_none_iff.mpr h
    simp [idxOf?, findIdx?_append, findIdx?_cons, hnone]
  by_cases hstar : before ++ 42 :: after = [42]
  · have hnil : before = [] ∧ after = [] := by
      cases before <;> simp_all
    simp [globMatches, hnil]
  · simp [globMatches, hstar, hindex]

theorem standsFor_append (h : 42 ∉ before) :
    StandsFor (before ++ after) value ↔ ∃ rest, value = before ++ rest ∧ StandsFor after rest := by
  induction before generalizing value with
  | nil => simp
  | cons byte before ih =>
    simp only [mem_cons, not_or] at h
    simp [StandsFor, ih h.2, Ne.symm h.1]

/-- Without its stars the pattern is a value that it stands for. -/
theorem standsFor_filter (pattern : Bytes) : StandsFor pattern (pattern.filter (· != 42)) := by
  induction pattern with
  | nil => rfl
  | cons byte pattern ih =>
    by_cases hstar : byte = 42
    · exact ⟨[], _, by simp [hstar], ih, .inl hstar⟩
    · exact ⟨[byte], _, by simp [hstar], ih, .inr rfl⟩

theorem standsFor_literal (h : 42 ∉ before) : StandsFor before value ↔ value = before := by
  simpa [StandsFor] using @standsFor_append before [] value h

theorem standsFor_star (hbefore : 42 ∉ before) (hafter : 42 ∉ after) :
    StandsFor (before ++ 42 :: after) value ↔ ∃ part, value = before ++ (part ++ after) := by
  simp [standsFor_append hbefore, StandsFor, standsFor_literal hafter]

/-- The matcher is right about all values exactly for the separated patterns. -/
theorem globMatches_exact_iff (pattern : Bytes) :
    (∀ value, globMatches pattern value ↔ StandsFor pattern value) ↔ Separated pattern := by
  by_cases hstar : 42 ∈ pattern
  · obtain ⟨before, after, rfl, hbefore⟩ := eq_append_cons_of_mem hstar
    simp only [globMatches_star hbefore]
    constructor
    · intro h
      have hafter : 42 ∉ after := by
        intro hmem
        have hmatch := (h (before ++ after.filter (· != 42))).mpr <| (standsFor_append hbefore).mpr
          ⟨_, rfl, [], _, rfl, standsFor_filter after, .inl rfl⟩
        simpa [hbefore] using hmatch.2.mem hmem
      refine ⟨by simp [count_eq_zero_of_not_mem, hbefore, hafter], fun start shared rest heq => ?_⟩
      obtain ⟨rfl, -, rfl⟩ := (append_cons_inj_of_notMem hbefore hafter).mp heq
      have hmatch := (h (start ++ shared ++ rest)).mp ⟨⟨rest, rfl⟩, ⟨start, by simp⟩⟩
      obtain ⟨part, hpart⟩ := (standsFor_star hbefore hafter).mp hmatch
      have hlength := congrArg length hpart
      simp only [length_append] at hlength
      exact length_eq_zero_iff.mp (by omega)
    · rintro ⟨hcount, hshared⟩ value
      have hafter : 42 ∉ after := count_eq_zero.mp (by
        simpa [count_eq_zero_of_not_mem hbefore] using hcount)
      rw [standsFor_star hbefore hafter]
      constructor
      · rintro ⟨⟨rest, rfl⟩, start, hend⟩
        obtain ⟨shared, rfl, rfl⟩ | ⟨part, rfl, rfl⟩ := append_eq_append_iff.mp hend
        · exact ⟨[], by simp [hshared start shared rest rfl]⟩
        · exact ⟨part, rfl⟩
      · rintro ⟨part, rfl⟩
        exact ⟨⟨_, rfl⟩, ⟨before ++ part, by simp⟩⟩
  · have hne : pattern ≠ [42] := by rintro rfl; simp at hstar
    have hnone : pattern.idxOf? 42 = none := idxOf?_eq_none_iff.mpr hstar
    have hseparated : Separated pattern := by
      refine ⟨by simp [count_eq_zero_of_not_mem hstar], ?_⟩
      rintro start shared rest rfl
      simp at hstar
    simp [globMatches, hnone, hne, standsFor_literal hstar, hseparated, eq_comm (a := pattern)]

/-- One `a` is matched on both sides of the star, and a second star only by itself. -/
theorem globMatches_overlap :
    globMatches [97, 42, 97] [97] ∧ ¬StandsFor [97, 42, 97] [97] ∧
      ¬globMatches [97, 42, 98, 42] [97, 98] ∧ StandsFor [97, 42, 98, 42] [97, 98] := by
  have hsplit := @standsFor_star [97] [97] [97] (by decide) (by decide)
  exact ⟨rfl, fun h => by simpa using hsplit.mp h, by decide, standsFor_filter [97, 42, 98, 42]⟩

end ShardKv
