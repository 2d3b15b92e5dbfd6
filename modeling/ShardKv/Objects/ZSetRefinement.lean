import ShardKv.Foundations.Tally
import ShardKv.Objects.ScoreList

/-!
# Sorted-set objects refine a sorted list of unique members

`Refines` relates an object of either form to its `ScoreList`: inline entries
are the list itself, and the two indexes of a promoted object both describe it.
Insertion, removal and popping keep the relation, across the promotion too.
-/
namespace ShardKv

open ScoreList List

universe u

variable {σ μ : Type u} [LinearOrder σ] [LinearOrder μ]

namespace ZSetObject

variable {T : OrderedIndex (ZSetOrderKey σ μ)}
  {entries : List (μ × σ)} {l : ScoreList σ μ} {object : ZSetObject T}
  {key : ZSetOrderKey σ μ}

/-- An inline object stores the keys in order; a promoted one has them as its
ordered index, and its score map gives every member its score. -/
def Refines : ZSetObject T → ScoreList σ μ → Prop
  | .small entries, l => entries.map orderKey = l.keys
  | .map scores ordered, l =>
    T.iter ordered = l.keys ∧ ∀ member, scores.lookup member = l.score member

theorem refines_small_empty : (.small [] : ZSetObject T).Refines .empty := rfl

theorem refines_mapWithCapacity : (mapWithCapacity : ZSetObject T).Refines .empty :=
  ⟨T.iter_new, fun _ => rfl⟩

theorem sortSmallZSet_eq (hp : (entries.map orderKey).Perm l.keys) :
    (sortSmallZSet entries).map orderKey = l.keys := by
  have hsorted : ((sortSmallZSet entries).map orderKey).Pairwise (· ≤ ·) :=
    pairwise_map.mpr (pairwise_insertionSort _ entries)
  have hperm : ((sortSmallZSet entries).map orderKey).Perm l.keys :=
    ((perm_insertionSort _ entries).map orderKey).trans hp
  exact hperm.eq_of_pairwise (fun _ _ _ _ => le_antisymm) hsorted (l.sorted.imp le_of_lt)

omit [LinearOrder σ] in
theorem map_fst_setScore (member : μ) (score : σ) (entries : List (μ × σ)) :
    (setScore member score entries).map Prod.fst = entries.map Prod.fst := by
  induction entries with
  | nil => rfl
  | cons entry entries ih =>
    obtain ⟨existing, old⟩ := entry
    unfold setScore
    split_ifs <;> simp [ih]

omit [LinearOrder σ] in
theorem mem_setScore {member : μ} {score : σ} (hnodup : (entries.map Prod.fst).Nodup)
    (hmem : member ∈ entries.map Prod.fst) (entry : μ × σ) :
    entry ∈ setScore member score entries ↔
      entry = (member, score) ∨ entry ∈ entries ∧ entry.1 ≠ member := by
  induction entries with
  | nil => simp at hmem
  | cons first entries ih =>
    obtain ⟨existing, old⟩ := first
    rw [map_cons, nodup_cons] at hnodup
    unfold setScore
    split_ifs with h
    · subst h
      have hne : ∀ e ∈ entries, e.1 ≠ existing := by
        rintro e he rfl
        exact hnodup.1 (mem_map.mpr ⟨e, he, rfl⟩)
      rw [mem_cons, mem_cons]
      constructor
      · rintro (rfl | he)
        · exact .inl rfl
        · exact .inr ⟨.inr he, hne entry he⟩
      · rintro (rfl | ⟨rfl | he, hne'⟩)
        · exact .inl rfl
        · exact absurd rfl hne'
        · exact .inr he
    · have hmem' : member ∈ entries.map Prod.fst := by
        rcases mem_cons.mp hmem with he | he
        · exact absurd he.symm h
        · exact he
      rw [mem_cons, mem_cons, ih hnodup.2 hmem']
      constructor
      · rintro (rfl | rfl | ⟨he, hne⟩)
        · exact .inr ⟨.inl rfl, h⟩
        · exact .inl rfl
        · exact .inr ⟨.inr he, hne⟩
      · rintro (rfl | ⟨rfl | he, hne⟩)
        · exact .inr (.inl rfl)
        · exact .inl rfl
        · exact .inr (.inr ⟨he, hne⟩)

/-- A list of entries with unique members is a permutation of a score list as
soon as both hold the same keys. -/
theorem perm_of_mem_iff (hnodup : (entries.map Prod.fst).Nodup)
    (h : ∀ entry, entry ∈ entries ↔ orderKey entry ∈ l.keys) :
    (entries.map orderKey).Perm l.keys := by
  have hkeys : (entries.map orderKey).Nodup := by
    refine List.Nodup.of_map memberOf ?_
    rw [map_map]
    exact hnodup
  refine (perm_ext_iff_of_nodup hkeys (l.sorted.imp ne_of_lt)).mpr fun key => ?_
  rw [mem_map]
  constructor
  · rintro ⟨entry, hmem, rfl⟩
    exact (h entry).mp hmem
  · exact fun hmem => ⟨entryOf key, (h _).mpr hmem, rfl⟩

section Small

variable {l : ScoreList σ μ}

section

variable (h : entries.map orderKey = l.keys)
include h

theorem mem_small (entry : μ × σ) : entry ∈ entries ↔ orderKey entry ∈ l.keys := by
  rw [← h, mem_map_of_injective orderKey_injective]

theorem nodup_small : (entries.map Prod.fst).Nodup := by
  have hu := l.unique
  rw [← h, map_map] at hu
  exact hu

theorem map_entryOf_keys : l.keys.map entryOf = entries := by
  rw [← h, map_map]
  simp [Function.comp_def]

/-- Membership of a member in the inline entries is having a score. -/
theorem any_member_iff (member : μ) :
    entries.any (fun entry => decide (entry.1 = member)) = true ↔ (l.score member).isSome := by
  rw [any_eq_true, Option.isSome_iff_exists]
  constructor
  · rintro ⟨⟨m, s⟩, hmem, heq⟩
    obtain rfl : m = member := by simpa using heq
    exact ⟨s, score_eq_some_iff.mpr ((mem_small h _).mp hmem)⟩
  · rintro ⟨s, hs⟩
    exact ⟨(member, s), (mem_small h _).mpr (score_eq_some_iff.mp hs), by simp⟩

/-- Overwriting the score of a stored member is the reference insertion, up to order. -/
theorem perm_setScore {member : μ} (hs : (l.score member).isSome) (score : σ) :
    ((setScore member score entries).map orderKey).Perm (l.insert member score).keys := by
  obtain ⟨old, hold⟩ := Option.isSome_iff_exists.mp hs
  have hmem : member ∈ entries.map Prod.fst :=
    mem_map.mpr ⟨(member, old), (mem_small h _).mpr (score_eq_some_iff.mp hold), rfl⟩
  refine perm_of_mem_iff (by rw [map_fst_setScore]; exact nodup_small h) fun entry => ?_
  rw [mem_setScore (nodup_small h) hmem, mem_insert, mem_small h, orderKey_injective.eq_iff]
  rfl

/-- Appending a new member is the reference insertion, up to order. -/
theorem perm_append {member : μ} (hs : l.score member = none) (score : σ) :
    ((entries ++ [(member, score)]).map orderKey).Perm (l.insert member score).keys := by
  have hfresh := score_eq_none_iff.mp hs
  have hne : ∀ entry ∈ entries, entry.1 ≠ member := fun entry hmem =>
    hfresh (orderKey entry) ((mem_small h entry).mp hmem)
  refine perm_of_mem_iff ?_ fun entry => ?_
  · rw [map_append, nodup_append]
    refine ⟨nodup_small h, by simp, ?_⟩
    rintro m hm _ hm' rfl
    obtain ⟨entry, hentry, rfl⟩ := mem_map.mp hm
    exact hne entry hentry (by simpa using hm')
  · rw [mem_append, mem_singleton, mem_insert, mem_small h, orderKey_injective.eq_iff, or_comm]
    constructor
    · rintro (he | hmem)
      · exact .inl he
      · exact .inr ⟨hmem, hfresh _ hmem⟩
    · rintro (he | ⟨hmem, _⟩)
      · exact .inl he
      · exact .inr hmem

end
end Small

section Map

variable {scores : AList fun _ : μ => σ} {ordered : T.Carrier} {member : μ}

section

variable (h : (.map scores ordered : ZSetObject T).Refines l)
include h

theorem refines_insert_fresh (hs : l.score member = none) (score : σ) :
    (.map (scores.insert member score) (T.insert ordered (orderKey (member, score))) :
      ZSetObject T).Refines (l.insert member score) := by
  refine ⟨?_, fun other => ?_⟩
  · refine (T.iter_sorted _).eq_of_mem_iff (l.insert member score).sorted fun key => ?_
    rw [T.mem_iter_insert, h.1, mem_insert]
    have hfresh := score_eq_none_iff.mp hs
    exact or_congr_right ⟨fun hmem => ⟨hmem, hfresh key hmem⟩, And.left⟩
  · rw [FinMap.lookup_insert_eq, h.2, score_insert]

theorem mem_iter_remove {old : σ} (hs : l.score member = some old) (key : ZSetOrderKey σ μ) :
    key ∈ T.iter (T.remove ordered (orderKey (member, old))) ↔
      key ∈ l.keys ∧ memberOf key ≠ member := by
  rw [T.mem_iter_remove, h.1]
  constructor
  · exact fun hmem => ⟨hmem.2, fun hm =>
      hmem.1 (l.key_unique hmem.2 (score_eq_some_iff.mp hs) hm)⟩
  · rintro ⟨hmem, hne⟩
    exact ⟨fun he => hne (he ▸ rfl), hmem⟩

theorem refines_insert_moved {old : σ} (hs : l.score member = some old) (score : σ) :
    (.map (scores.insert member score)
      (T.insert (T.remove ordered (orderKey (member, old))) (orderKey (member, score))) :
      ZSetObject T).Refines (l.insert member score) := by
  refine ⟨?_, fun other => ?_⟩
  · refine (T.iter_sorted _).eq_of_mem_iff (l.insert member score).sorted fun key => ?_
    rw [T.mem_iter_insert, mem_iter_remove h hs, mem_insert]
  · rw [FinMap.lookup_insert_eq, h.2, score_insert]

theorem refines_erase {old : σ} (hs : l.score member = some old) :
    (.map (scores.erase member) (T.remove ordered (orderKey (member, old))) :
      ZSetObject T).Refines (l.remove member) := by
  refine ⟨?_, fun other => ?_⟩
  · refine (T.iter_sorted _).eq_of_mem_iff (l.remove member).sorted fun key => ?_
    rw [mem_iter_remove h hs, mem_remove]
  · rw [FinMap.lookup_erase_eq, h.2, score_remove]

theorem keys_length_eq : scores.keys.length = l.keys.length := by
  have hperm : scores.keys.Perm (l.keys.map memberOf) := by
    refine (perm_ext_iff_of_nodup scores.nodupKeys l.unique).mpr fun member => ?_
    change member ∈ scores.keys ↔ _
    rw [← AList.mem_keys, ← AList.lookup_isSome, h.2, Option.isSome_iff_exists, mem_map]
    constructor
    · rintro ⟨s, hs⟩
      exact ⟨_, score_eq_some_iff.mp hs, rfl⟩
    · rintro ⟨key, hmem, rfl⟩
      exact ⟨(entryOf key).2, score_eq_some_iff.mpr hmem⟩
  simpa using hperm.length_eq

end
end Map

variable (entries) in
/-- Promotion enters exactly the inline entries in both indexes. -/
theorem refines_promote :
    ∀ {scores : AList fun _ : μ => σ} {ordered : T.Carrier} {l : ScoreList σ μ},
      (.map scores ordered : ZSetObject T).Refines l → (entries.map Prod.fst).Nodup →
      (∀ entry ∈ entries, l.score entry.1 = none) →
      ∃ l',
        (.map (promote entries scores ordered).1 (promote entries scores ordered).2 :
          ZSetObject T).Refines l' ∧
        ∀ key, key ∈ l'.keys ↔ key ∈ l.keys ∨ entryOf key ∈ entries := by
  induction entries with
  | nil => exact fun {_ _ l} h _ _ => ⟨l, h, fun key => by simp⟩
  | cons entry entries ih =>
    obtain ⟨member, score⟩ := entry
    intro scores ordered l h hnodup hfresh
    rw [map_cons, nodup_cons] at hnodup
    have hs : l.score member = none := hfresh (member, score) mem_cons_self
    have hrest : ∀ entry ∈ entries, (l.insert member score).score entry.1 = none := by
      intro entry hentry
      have hne : entry.1 ≠ member := by
        rintro rfl
        exact hnodup.1 (mem_map.mpr ⟨entry, hentry, rfl⟩)
      rw [score_insert, if_neg hne]
      exact hfresh entry (mem_cons_of_mem _ hentry)
    obtain ⟨l', hl', hmem⟩ := ih (refines_insert_fresh h hs score) hnodup.2 hrest
    refine ⟨l', hl', fun key => ?_⟩
    rw [hmem, mem_insert, mem_cons]
    have hkey : key = orderKey (member, score) ↔ entryOf key = (member, score) :=
      ⟨fun e => e ▸ rfl, fun e => by rw [← e, orderKey_entryOf]⟩
    rw [hkey]
    constructor
    · rintro ((he | ⟨hk, _⟩) | he)
      · exact .inr (.inl he)
      · exact .inl hk
      · exact .inr (.inr he)
    · rintro (hk | he | he)
      · exact .inl (.inr ⟨hk, score_eq_none_iff.mp hs key hk⟩)
      · exact .inl (.inl he)
      · exact .inr he

theorem refines_promote_small (h : entries.map orderKey = l.keys) :
    (.map (promote (T := T) entries ∅ T.new).1 (promote (T := T) entries ∅ T.new).2 :
      ZSetObject T).Refines l := by
  obtain ⟨l', hl', hmem⟩ := refines_promote entries (refines_mapWithCapacity (T := T))
    (nodup_small h) (fun _ _ => rfl)
  have hl : l' = l := by
    apply ext_of_mem
    intro key
    rw [hmem, mem_small h, orderKey_entryOf]
    exact or_iff_right not_mem_nil
  exact hl ▸ hl'

theorem insertSlice_spec (h : object.Refines l) (member : μ) (score : σ) :
    (object.insertSlice member score).1 = (l.score member).isNone ∧
      (object.insertSlice member score).2.Refines (l.insert member score) := by
  cases object with
  | small entries =>
    have hany := any_member_iff h member
    unfold insertSlice
    dsimp only
    split_ifs with honly hmem hlen
    · -- a lone entry of this member is overwritten without sorting
      obtain ⟨old, rfl⟩ : ∃ old, entries = [(member, old)] := by
        split at honly
        · rename_i existing old
          obtain rfl : existing = member := by simpa using honly
          exact ⟨old, rfl⟩
        · simp at honly
      have hs : (l.score member).isSome := hany.mp (by simp)
      have hset : setScore member score [(member, old)] = [(member, score)] := by simp [setScore]
      have hperm := perm_setScore h hs score
      rw [hset] at hperm
      refine ⟨by simpa using hs, ?_⟩
      rw [hset]
      exact (singleton_perm.mp hperm)
    · exact ⟨by simpa using hany.mp hmem, sortSmallZSet_eq (perm_setScore h (hany.mp hmem) score)⟩
    · have hs : l.score member = none := by simpa using mt hany.mpr hmem
      exact ⟨by rw [hs]; rfl, sortSmallZSet_eq (perm_append h hs score)⟩
    · have hs : l.score member = none := by simpa using mt hany.mpr hmem
      exact ⟨by rw [hs]; rfl, refines_insert_fresh (refines_promote_small h) hs score⟩
  | map =>
    have hlookup := h.2 member
    unfold insertSlice
    dsimp only
    cases hs : l.score member with
    | none =>
      rw [hlookup, hs]
      exact ⟨rfl, refines_insert_fresh h hs score⟩
    | some old =>
      rw [hlookup, hs]
      dsimp only
      split_ifs with hne
      · exact ⟨rfl, refines_insert_moved h hs score⟩
      · obtain rfl : old = score := not_not.mp hne
        rw [ScoreList.insert_of_mem (score_eq_some_iff.mp hs)]
        exact ⟨rfl, h⟩

/-- With unique members, erasing the first match erases every match. -/
theorem eraseP_eq_filter {α β : Type*} [DecidableEq β] (f : α → β) (b : β) (xs : List α)
    (h : (xs.map f).Nodup) :
    xs.eraseP (fun x => decide (f x = b)) = xs.filter (fun x => decide (f x ≠ b)) := by
  induction xs with
  | nil => rfl
  | cons x xs ih =>
    rw [map_cons, nodup_cons] at h
    by_cases hx : f x = b
    · have hrest : ∀ y ∈ xs, f y ≠ b := by
        intro y hy hyb
        exact h.1 (mem_map.mpr ⟨y, hy, hyb.trans hx.symm⟩)
      rw [eraseP_cons_of_pos (by simpa using hx), filter_cons_of_neg (by simpa using hx),
        filter_eq_self.mpr (by simpa using hrest)]
    · rw [eraseP_cons_of_neg (by simpa using hx), filter_cons_of_pos (by simpa using hx), ih h.2]

theorem remove_spec (h : object.Refines l) (member : μ) :
    (object.remove member).1 = (l.score member).isSome ∧
      (object.remove member).2.Refines (l.remove member) := by
  cases object with
  | small entries =>
    have hany := any_member_iff h member
    have herase := eraseP_eq_filter Prod.fst member entries (nodup_small h)
    have hkeys : (entries.filter fun entry => decide (entry.1 ≠ member)).map orderKey =
        (l.remove member).keys := by
      change _ = l.keys.filter _
      rw [← h, filter_map]
      rfl
    rw [eraseP_eq_eraseIdx] at herase
    unfold ZSetObject.remove
    dsimp only
    cases hidx : entries.findIdx? (fun entry => decide (entry.1 = member)) with
    | none =>
      rw [hidx] at herase
      rw [← List.findIdx?_isSome, hidx] at hany
      refine ⟨by simpa using hany, ?_⟩
      change entries.map orderKey = _
      rw [← hkeys, ← herase]
    | some index =>
      rw [hidx] at herase
      rw [← List.findIdx?_isSome, hidx] at hany
      refine ⟨(hany.mp rfl).symm, ?_⟩
      change (entries.eraseIdx index).map orderKey = _
      rw [← hkeys, ← herase]
  | map =>
    unfold ZSetObject.remove
    dsimp only
    rw [h.2 member]
    cases hs : l.score member with
    | none =>
      rw [remove_of_score_none hs]
      exact ⟨rfl, h⟩
    | some => exact ⟨rfl, refines_erase h hs⟩

omit [LinearOrder σ] [LinearOrder μ] in
theorem popSmall_min (take : ℕ) (entries : List (μ × σ)) :
    popSmall false take entries = (entries.take take, entries.drop take) := by
  induction take generalizing entries with
  | zero => simp [popSmall]
  | succ take ih =>
    cases entries with
    | nil => simp [popSmall]
    | cons => simp [popSmall, ih]

omit [LinearOrder σ] [LinearOrder μ] in
theorem popSmall_max (take : ℕ) (entries : List (μ × σ)) : popSmall true take entries =
      (entries.reverse.take take, entries.take (entries.length - take)) := by
  induction take generalizing entries with
  | zero => simp [popSmall]
  | succ take ih =>
    rcases eq_nil_or_concat' entries with rfl | ⟨front, last, rfl⟩
    · simp [popSmall]
    · have hlast : (front ++ [last])[front.length]? = some last := by simp
      have herase : (front ++ [last]).eraseIdx front.length = front := by
        rw [eraseIdx_append_of_length_le le_rfl]
        simp
      simp only [popSmall, if_true, length_append, length_singleton,
        Nat.add_sub_cancel, hlast, herase, ih, Nat.add_sub_add_right]
      rw [reverse_append, reverse_singleton, singleton_append,
        take_succ_cons, take_append_of_le_length (Nat.sub_le _ _)]

/-- The keys left when the smallest or the largest one is dropped. -/
theorem keys_remove_extreme {front rest : List (ZSetOrderKey σ μ)}
    (h : l.keys = front ++ key :: rest) : (l.remove (memberOf key)).keys = front ++ rest := by
  have hunique := l.unique
  rw [h, map_append, map_cons, nodup_middle, nodup_cons, ← map_append] at hunique
  have hne : ∀ k ∈ front ++ rest, memberOf k ≠ memberOf key := by
    intro k hk heq
    exact hunique.1 (mem_map.mpr ⟨k, hk, heq⟩)
  change l.keys.filter _ = _
  rw [h, filter_append, filter_cons_of_neg (by simp), ← filter_append,
    filter_eq_self.mpr (by simpa using hne)]

theorem pop_succ_min {rest : List (ZSetOrderKey σ μ)} (h : l.keys = key :: rest) (take : ℕ) :
    l.pop (take + 1) false = (entryOf key :: ((l.remove (memberOf key)).pop take false).1,
        ((l.remove (memberOf key)).pop take false).2) := by
  have hsplit : l.keys = [] ++ key :: rest := h
  have hkeys : (l.remove (memberOf key)).keys = rest := keys_remove_extreme hsplit
  simp only [pop, Bool.false_eq_true, if_false, restrict, hkeys, h,
    take_succ_cons, map_cons, drop_succ_cons]

theorem pop_succ_max {front : List (ZSetOrderKey σ μ)} (h : l.keys = front ++ [key]) (take : ℕ) :
    l.pop (take + 1) true = (entryOf key :: ((l.remove (memberOf key)).pop take true).1,
        ((l.remove (memberOf key)).pop take true).2) := by
  have hkeys : (l.remove (memberOf key)).keys = front := by
    rw [keys_remove_extreme h, append_nil]
  simp only [pop, if_true, restrict, hkeys, h, reverse_append,
    reverse_singleton, singleton_append, take_succ_cons, map_cons,
    length_append, length_singleton, Nat.add_sub_add_right,
    take_append_of_le_length (Nat.sub_le front.length take)]

/-- The item the map form pops next and what is left of the reference list. -/
theorem extremeOrderedItem_spec {scores : AList fun _ : μ => σ} {ordered : T.Carrier}
    (h : (.map scores ordered : ZSetObject T).Refines l) (max : Bool) :
    match extremeOrderedItem ordered max with
    | none => l.keys = []
    | some key => key ∈ l.keys ∧ ∀ take, l.pop (take + 1) max =
        (entryOf key :: ((l.remove (memberOf key)).pop take max).1,
          ((l.remove (memberOf key)).pop take max).2) := by
  unfold extremeOrderedItem
  rw [T.getLast_eq, T.getFirst_eq, h.1]
  cases max with
  | false =>
    rw [if_neg Bool.false_ne_true]
    cases hkeys : l.keys with
    | nil => rfl
    | cons => exact ⟨mem_cons_self, pop_succ_min hkeys⟩
  | true =>
    rw [if_pos rfl]
    rcases eq_nil_or_concat' l.keys with hkeys | ⟨front, key, hkeys⟩
    · rw [hkeys]
      rfl
    · have hlast : l.keys.getLast? = some key := by
        rw [hkeys]
        exact List.getLast?_concat
      rw [hlast]
      exact ⟨mem_of_getLast? hlast, pop_succ_max hkeys⟩

theorem popMap_spec (max : Bool) (take : ℕ) :
    ∀ {scores : AList fun _ : μ => σ} {ordered : T.Carrier} {l : ScoreList σ μ},
      (.map scores ordered : ZSetObject T).Refines l →
      (popMap (T := T) max take scores ordered).1 = (l.pop take max).1 ∧
        (.map (popMap (T := T) max take scores ordered).2.1
          (popMap (T := T) max take scores ordered).2.2 : ZSetObject T).Refines
          (l.pop take max).2 := by
  induction take with
  | zero =>
    intro scores ordered l h
    have hpop : l.pop 0 max = ([], l) := by
      cases max <;> simp [pop, restrict]
    rw [hpop]
    exact ⟨rfl, h⟩
  | succ take ih =>
    intro scores ordered l h
    have hspec := extremeOrderedItem_spec h max
    unfold popMap
    cases hitem : extremeOrderedItem (T := T) ordered max with
    | none =>
      rw [hitem] at hspec
      have hpop : l.pop (take + 1) max = ([], l) := by
        obtain ⟨keys, _, _⟩ := l
        obtain rfl : keys = [] := hspec
        cases max <;> simp [pop, restrict]
      rw [hpop]
      exact ⟨rfl, h⟩
    | some =>
      rw [hitem] at hspec
      obtain ⟨hmem, hpop⟩ := hspec
      have hscore := score_eq_some_iff.mpr hmem
      obtain ⟨hout, hrest⟩ := ih (refines_erase h hscore)
      rw [hpop]
      exact ⟨congrArg _ hout, hrest⟩

variable (l) in
theorem pop_min_length (count : ℕ) (max : Bool) :
    l.pop (min count l.keys.length) max = l.pop count max := by
  have htake : l.keys.reverse.take (min count l.keys.length) = l.keys.reverse.take count := by
    rw [take_eq_take_iff, length_reverse, min_assoc, min_self]
  have hfront : l.keys.length - min count l.keys.length = l.keys.length - count := by omega
  have htake' : l.keys.take (min count l.keys.length) = l.keys.take count := by
    rw [take_eq_take_iff, min_assoc, min_self]
  have hdrop : l.keys.drop (min count l.keys.length) = l.keys.drop count := by
    rcases le_total count l.keys.length with hle | hle
    · rw [min_eq_left hle]
    · rw [min_eq_right hle, drop_length, drop_eq_nil_of_le hle]
  simp only [pop, restrict, htake, hfront, htake', hdrop]

theorem popExtreme_spec (h : object.Refines l) (count : ℕ) (max : Bool) :
    (object.popExtreme count max).1 = (l.pop count max).1 ∧
      (object.popExtreme count max).2.Refines (l.pop count max).2 := by
  rw [← pop_min_length]
  cases object with
  | small entries =>
    have hlen : entries.length = l.keys.length := by rw [← h, length_map]
    unfold popExtreme
    dsimp only
    rw [hlen]
    cases max with
    | false =>
      rw [popSmall_min]
      simp only [pop, Bool.false_eq_true, if_false]
      rw [map_take, map_entryOf_keys h]
      refine ⟨rfl, ?_⟩
      change (entries.drop _).map orderKey = l.keys.drop _
      rw [map_drop, h]
    | true =>
      rw [popSmall_max]
      simp only [pop, if_true]
      rw [map_take, map_reverse, map_entryOf_keys h]
      refine ⟨rfl, ?_⟩
      change (entries.take _).map orderKey = l.keys.take _
      rw [map_take, h, hlen]
  | map =>
    unfold popExtreme
    dsimp only
    rw [keys_length_eq h]
    exact popMap_spec max _ h

end ZSetObject
end ShardKv
