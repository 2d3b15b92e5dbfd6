import ShardKv.Objects.ZSetObject

/-!
# The sorted list behind a sorted set

`ScoreList` is what a sorted set is for: a list of `(score, member)` keys in
strict order in which no member occurs twice. Its operations are stated on the
whole list, without the promotion and the two indexes of the object. A range
request selects a slice of such a list by position.
-/
namespace ShardKv

open List

universe u

variable {σ μ : Type u}

@[simp] theorem entryOf_orderKey (entry : μ × σ) : entryOf (orderKey entry) = entry := rfl

@[simp] theorem orderKey_entryOf (key : ZSetOrderKey σ μ) : orderKey (entryOf key) = key := rfl

theorem orderKey_injective : Function.Injective (orderKey : μ × σ → ZSetOrderKey σ μ) :=
  Function.LeftInverse.injective entryOf_orderKey

/-- The member of an index key. -/
def memberOf (key : ZSetOrderKey σ μ) : μ := (entryOf key).1

@[simp] theorem memberOf_orderKey (entry : μ × σ) : memberOf (orderKey entry) = entry.1 := rfl

variable [LinearOrder σ] [LinearOrder μ]

/-- Keys in strict `(score, member)` order, at most one for each member. -/
structure ScoreList (σ μ : Type u) [LinearOrder σ] [LinearOrder μ] where
  keys : List (ZSetOrderKey σ μ)
  sorted : keys.Pairwise (· < ·)
  unique : (keys.map memberOf).Nodup

namespace ScoreList

variable {l : ScoreList σ μ} {member : μ}

theorem ext_of_mem {l' : ScoreList σ μ} (h : ∀ key, key ∈ l.keys ↔ key ∈ l'.keys) : l = l' := by
  have hkeys : l.keys = l'.keys := l.sorted.eq_of_mem_iff l'.sorted h
  cases l
  cases l'
  simpa using hkeys

def empty : ScoreList σ μ := ⟨[], List.Pairwise.nil, List.nodup_nil⟩

/-- Drop the key of a member, if it has one. -/
def remove (l : ScoreList σ μ) (member : μ) : ScoreList σ μ where
  keys := l.keys.filter (memberOf · ≠ member)
  sorted := l.sorted.filter _
  unique := l.unique.sublist (List.filter_sublist.map _)

theorem mem_remove {key : ZSetOrderKey σ μ} :
    key ∈ (l.remove member).keys ↔ key ∈ l.keys ∧ memberOf key ≠ member := by
  simp [remove]

variable (l member) in
theorem not_mem_remove : member ∉ (l.remove member).keys.map memberOf := by
  rintro hmem
  obtain ⟨key, hkey, rfl⟩ := mem_map.mp hmem
  exact (mem_remove.mp hkey).2 rfl

/-- Give a member a score, replacing the one it had. -/
def insert (l : ScoreList σ μ) (member : μ) (score : σ) : ScoreList σ μ where
  keys := (l.remove member).keys.orderedInsert (· ≤ ·) (orderKey (member, score))
  sorted := pairwise_lt_orderedInsert (l.remove member).sorted fun hmem =>
    l.not_mem_remove member (List.mem_map_of_mem hmem)
  unique := by
    have hp := (List.perm_orderedInsert (· ≤ ·) (orderKey (member, score))
      (l.remove member).keys).map memberOf
    exact hp.nodup_iff.mpr (List.nodup_cons.mpr ⟨l.not_mem_remove member, (l.remove member).unique⟩)

theorem mem_insert {score : σ} {key : ZSetOrderKey σ μ} : key ∈ (l.insert member score).keys ↔
      key = orderKey (member, score) ∨ key ∈ l.keys ∧ memberOf key ≠ member := by
  rw [← mem_remove]
  exact mem_orderedInsert _

/-- The score of a member. -/
def score (l : ScoreList σ μ) (member : μ) : Option σ :=
  (l.keys.find? (memberOf · = member)).map fun key => (entryOf key).2

variable (l) in
/-- Members are unique, so equal members mean equal keys. -/
theorem key_unique {k k' : ZSetOrderKey σ μ} (hk : k ∈ l.keys)
    (hk' : k' ∈ l.keys) (h : memberOf k = memberOf k') : k = k' :=
  inj_on_of_nodup_map l.unique hk hk' h

theorem score_eq_some_iff {score : σ} :
    l.score member = some score ↔ orderKey (member, score) ∈ l.keys := by
  unfold ScoreList.score
  constructor
  · intro h
    obtain ⟨key, hfind, rfl⟩ := Option.map_eq_some_iff.mp h
    have hmember : memberOf key = member := by simpa using List.find?_some hfind
    subst hmember
    exact mem_of_find?_eq_some hfind
  · intro hmem
    cases hfind : l.keys.find? (memberOf · = member) with
    | none =>
      have := List.find?_eq_none.mp hfind _ hmem
      simp at this
    | some key =>
      have hmember : memberOf key = member := by simpa using List.find?_some hfind
      have hkey := l.key_unique (mem_of_find?_eq_some hfind) hmem hmember
      subst hkey
      rfl

theorem score_eq_none_iff : l.score member = none ↔ ∀ key ∈ l.keys, memberOf key ≠ member := by
  simp [ScoreList.score]

variable (l member) in
theorem score_insert (score : σ) (other : μ) :
    (l.insert member score).score other = if other = member then some score else l.score other := by
  apply Option.ext
  intro s
  rw [score_eq_some_iff, mem_insert]
  split_ifs with h
  · subst h
    constructor
    · rintro (hkey | ⟨_, hne⟩)
      · exact congrArg some (Prod.ext_iff.mp (orderKey_injective hkey)).2.symm
      · exact absurd rfl hne
    · intro hs
      left
      rw [Option.some.inj hs]
  · rw [score_eq_some_iff]
    constructor
    · rintro (hkey | ⟨hmem, _⟩)
      · exact absurd (Prod.ext_iff.mp (orderKey_injective hkey)).1 h
      · exact hmem
    · exact fun hmem => .inr ⟨hmem, h⟩

variable (l) in
theorem score_remove (member other : μ) :
    (l.remove member).score other = if other = member then none else l.score other := by
  apply Option.ext
  intro s
  rw [score_eq_some_iff, mem_remove]
  split_ifs with h
  · simp [h]
  · rw [score_eq_some_iff]
    exact ⟨And.left, fun hmem => ⟨hmem, h⟩⟩

theorem insert_of_mem {score : σ} (h : orderKey (member, score) ∈ l.keys) :
    l.insert member score = l := by
  apply ext_of_mem
  intro key
  rw [mem_insert]
  constructor
  · rintro (rfl | ⟨hmem, _⟩)
    · exact h
    · exact hmem
  · intro hmem
    by_cases hm : memberOf key = member
    · exact .inl (l.key_unique hmem h hm)
    · exact .inr ⟨hmem, hm⟩

theorem remove_of_score_none (h : l.score member = none) : l.remove member = l := by
  apply ext_of_mem
  intro key
  rw [mem_remove]
  exact ⟨And.left, fun hmem => ⟨hmem, score_eq_none_iff.mp h key hmem⟩⟩

/-- Sublists of a score list are score lists. -/
def restrict (l : ScoreList σ μ) (keys : List (ZSetOrderKey σ μ)) (h : keys.Sublist l.keys) :
    ScoreList σ μ where
  keys := keys
  sorted := l.sorted.sublist h
  unique := l.unique.sublist (h.map _)

/-- The `count` extreme keys, outermost first, and the list without them. -/
def pop (l : ScoreList σ μ) (count : ℕ) (max : Bool) : List (μ × σ) × ScoreList σ μ :=
  if max then
    ((l.keys.reverse.take count).map entryOf,
      l.restrict (l.keys.take (l.keys.length - count)) (List.take_sublist _ _))
  else
    ((l.keys.take count).map entryOf, l.restrict (l.keys.drop count) (List.drop_sublist _ _))

/-- The position of a member, counted from either end. -/
def rank (l : ScoreList σ μ) (member : μ) (rev : Bool) : Option ℕ :=
  (if rev then l.keys.reverse else l.keys).findIdx? (memberOf · = member)

end ScoreList

/-- The position an index argument means: negative ones count from the end. -/
def resolveIndex (len : ℕ) (index : ℤ) : ℤ := if index < 0 then (len : ℤ) + index else index

/-- The elements whose position lies between two index arguments, both included. -/
def slice {α : Type*} (xs : List α) (start stop : ℤ) : List α := (xs.zipIdx.filter fun p =>
    decide (resolveIndex xs.length start ≤ (p.2 : ℤ) ∧ (p.2 : ℤ) ≤ resolveIndex xs.length stop)).map
      Prod.fst

/-- `normalizeRange` depends on its arguments only through the positions they mean. -/
theorem normalizeRange_eq (start stop : ℤ) (len : ℕ) : normalizeRange start stop len =
      if len = 0 then none
      else if resolveIndex len stop < 0 then none
      else if (len : ℤ) ≤ max 0 (resolveIndex len start) then none
      else if max 0 (resolveIndex len start) ≤ min ((len : ℤ) - 1) (resolveIndex len stop) then
        some ((max 0 (resolveIndex len start)).toNat,
          (min ((len : ℤ) - 1) (resolveIndex len stop)).toNat)
      else none := by
  have hstart : (if resolveIndex len start < 0 then 0 else resolveIndex len start) =
      max 0 (resolveIndex len start) := by
    split_ifs <;> omega
  have hstop : (if (len : ℤ) ≤ resolveIndex len stop then (len : ℤ) - 1
      else resolveIndex len stop) = min ((len : ℤ) - 1) (resolveIndex len stop) := by
    split_ifs <;> omega
  rw [← hstart, ← hstop]
  rfl

/-- Positions outside a rejected range, and exactly the positions of an accepted one. -/
theorem normalizeRange_spec (start stop : ℤ) (len : ℕ) :
    match normalizeRange start stop len with
    | none => ∀ i < len, ¬(resolveIndex len start ≤ (i : ℤ) ∧ (i : ℤ) ≤ resolveIndex len stop)
    | some (first, last) => first ≤ last ∧ last < len ∧ ∀ i < len,
        (resolveIndex len start ≤ (i : ℤ) ∧ (i : ℤ) ≤ resolveIndex len stop) ↔
          (first ≤ i ∧ i ≤ last) := by
  rw [normalizeRange_eq]
  split_ifs
  · omega
  · omega
  · omega
  · exact ⟨by omega, by omega, fun i hi => by omega⟩
  · omega

theorem filter_zipIdx {α : Type*} (xs : List α) (a b : ℕ) : ∀ k,
    ((xs.zipIdx k).filter fun p => decide (a ≤ p.2 ∧ p.2 ≤ b)).map Prod.fst =
      (xs.drop (a - k)).take (b + 1 - max a k) := by
  induction xs with
  | nil => simp
  | cons x xs ih =>
    intro k
    rw [zipIdx_cons, filter_cons]
    by_cases hak : a ≤ k
    · rw [show a - k = 0 by omega, drop_zero]
      by_cases hkb : k ≤ b
      · rw [if_pos (by simp [hak, hkb]), map_cons, ih, show a - (k + 1) = 0 by omega,
          drop_zero, show b + 1 - max a k = (b + 1 - max a (k + 1)) + 1 by omega,
          take_succ_cons]
      · rw [if_neg (by simp [hkb]), ih, show b + 1 - max a (k + 1) = 0 by omega,
          show b + 1 - max a k = 0 by omega, take_zero, take_zero]
    · rw [if_neg (by simp [hak]), ih, show a - k = (a - (k + 1)) + 1 by omega,
        drop_succ_cons, show max a k = max a (k + 1) by omega]

/-- A rejected range has an empty slice; an accepted one has exactly the bounds of its slice. -/
theorem slice_cases {α : Type*} (xs : List α) (start stop : ℤ) :
    (normalizeRange start stop xs.length = none ∧ slice xs start stop = []) ∨
      ∃ first last, normalizeRange start stop xs.length = some (first, last) ∧
        first ≤ last ∧ last < xs.length ∧
        slice xs start stop = (xs.drop first).take (last - first + 1) ∧
        (slice xs start stop).length = last - first + 1 := by
  have hspec := normalizeRange_spec start stop xs.length
  cases h : normalizeRange start stop xs.length with
  | none =>
    rw [h] at hspec
    refine .inl ⟨rfl, ?_⟩
    rw [slice, filter_eq_nil_iff.mpr, map_nil]
    intro p hp
    have hlt := snd_lt_of_mem_zipIdx hp
    simpa using hspec p.2 (by simpa using hlt)
  | some bounds =>
    obtain ⟨first, last⟩ := bounds
    rw [h] at hspec
    obtain ⟨hle, hlt, hiff⟩ := hspec
    have hslice : slice xs start stop = (xs.drop first).take (last - first + 1) := by
      have hf := filter_zipIdx xs first last 0
      rw [Nat.sub_zero, Nat.max_zero, show last + 1 - first = last - first + 1 by omega] at hf
      rw [← hf, slice]
      congr 1
      apply filter_congr
      intro p hp
      have hlt := snd_lt_of_mem_zipIdx hp
      exact decide_eq_decide.mpr (hiff p.2 (by simpa using hlt))
    refine .inr ⟨first, last, rfl, hle, hlt, hslice, ?_⟩
    rw [hslice, length_take, length_drop]
    omega

end ShardKv
