import ShardKv.Objects.ZSetRefinement

/-!
# What a sorted-set object answers

Every observer of an object that refines a `ScoreList` answers from the list:
scores, lengths, ranks from both ends and the three range traversals, whichever
of their strategies is taken. Together with the operation lemmas this gives the
same answers after any run of operations.
-/
namespace ShardKv

open ZSetObject List

universe u

variable {σ μ : Type u} [LinearOrder σ] [LinearOrder μ]

namespace ZSetObject

variable {T : OrderedIndex (ZSetOrderKey σ μ)} {object : ZSetObject T} {l : ScoreList σ μ}
  {α : Type*}

section

variable (h : object.Refines l)
include h

theorem score_eq (member : μ) : object.score member = l.score member := by
  cases object with
  | small entries =>
    apply Option.ext
    intro s
    have hnodup := nodup_small h
    rw [ScoreList.score_eq_some_iff, ← mem_small h]
    unfold score
    dsimp only
    constructor
    · intro hfind
      obtain ⟨⟨m, t⟩, hmem, heq⟩ := exists_of_findSome?_eq_some hfind
      split_ifs at heq with hm
      obtain rfl : t = s := Option.some.inj heq
      exact hm ▸ hmem
    · intro hmem
      cases hfind : entries.findSome? fun entry =>
          if entry.1 = member then some entry.2 else none with
      | none =>
        have := List.findSome?_eq_none_iff.mp hfind _ hmem
        simp at this
      | some =>
        obtain ⟨entry, hmem', heq⟩ := exists_of_findSome?_eq_some hfind
        split_ifs at heq with hm
        have hentry : entry = (member, s) := inj_on_of_nodup_map hnodup hmem' hmem hm
        rw [← Option.some.inj heq, hentry]
  | map => exact h.2 member

theorem len_eq : object.len = l.keys.length := by
  cases object with
  | small =>
    rw [← h, length_map]
    rfl
  | map => exact keys_length_eq h

theorem isEmpty_eq : object.isEmpty = l.keys.isEmpty := by
  have hlen := len_eq h
  cases object with
  | small entries | map scores ordered =>
    rw [Bool.eq_iff_iff, isEmpty_iff_length_eq_zero, ← hlen]
    exact isEmpty_iff_length_eq_zero

theorem entries_eq : object.entries = l.keys.map entryOf := by
  cases object with
  | small => exact (map_entryOf_keys h).symm
  | map => exact congrArg (List.map entryOf) h.1

end

omit [LinearOrder σ] [LinearOrder μ] in
/-- An element that a labelling tells apart from all others is found at its own position. -/
theorem findIdx?_of_nodup_map {β : Type*} [DecidableEq β] {f : α → β} {xs : List α}
    (hu : (xs.map f).Nodup) {i : ℕ} {x : α} (hi : xs[i]? = some x) :
    xs.findIdx? (fun y => decide (f y = f x)) = some i := by
  obtain ⟨hlt, hget⟩ := List.getElem?_eq_some_iff.mp hi
  refine List.findIdx?_eq_some_iff_getElem.mpr ⟨hlt, by simp [hget], fun j hj => ?_⟩
  have hne := pairwise_iff_getElem.mp hu j i (by simp; omega) (by simpa using hlt) hj
  simpa [hget] using hne

/-- The position of a key, counted from the front and from the back. -/
theorem rank_of_getElem? {i : ℕ} {key : ZSetOrderKey σ μ} (hi : l.keys[i]? = some key)
    (rev : Bool) :
    l.rank (memberOf key) rev = some (if rev then l.keys.length - i - 1 else i) := by
  obtain ⟨hlt, hget⟩ := List.getElem?_eq_some_iff.mp hi
  cases rev with
  | false => exact findIdx?_of_nodup_map l.unique hi
  | true =>
    refine findIdx?_of_nodup_map ?_ ?_
    · rw [if_pos rfl, map_reverse]
      exact nodup_reverse.mpr l.unique
    · rw [if_pos rfl, if_pos rfl, List.getElem?_reverse (by omega), ← hi]
      congr 1
      omega

theorem rank_eq (h : object.Refines l) (member : μ) (rev : Bool) :
    object.rank member rev = l.rank member rev := by
  cases object with
  | small =>
    unfold rank ScoreList.rank
    rw [← h, ← map_reverse]
    cases rev with
    | false =>
      rw [if_neg Bool.false_ne_true, List.findIdx?_map]
      rfl
    | true =>
      rw [if_pos rfl, List.findIdx?_map]
      rfl
  | map =>
    unfold rank
    dsimp only
    rw [h.2 member]
    cases hs : l.score member with
    | none =>
      have hfresh := ScoreList.score_eq_none_iff.mp hs
      symm
      refine List.findIdx?_eq_none_iff.mpr fun key hkey => ?_
      have hmem : key ∈ l.keys := by
        cases rev with
        | false => exact hkey
        | true => exact mem_reverse.mp hkey
      simpa using hfresh key hmem
    | some s =>
      have hmem := ScoreList.score_eq_some_iff.mp hs
      obtain ⟨i, hi⟩ := mem_iff_getElem?.mp hmem
      have hidx : l.keys.findIdx? (· = orderKey (member, s)) = some i := by
        refine findIdx?_of_nodup_map (f := id) ?_ hi
        rw [map_id]
        exact l.sorted.imp ne_of_lt
      rw [Option.bind_some, T.getIndexFromKey_eq, T.len_eq, h.1, hidx]
      exact (rank_of_getElem? hi rev).symm

/-- Reading a run of positions one by one is cutting out the run. -/
theorem filterMap_range' (xs : List α) (n : ℕ) : ∀ a,
    (List.range' a n).filterMap (fun i => xs[i]?) = (xs.drop a).take n := by
  induction n with
  | zero => simp
  | succ n ih =>
    intro a
    rw [range'_succ, filterMap_cons]
    rcases Nat.lt_or_ge a xs.length with ha | ha
    · rw [List.getElem?_eq_getElem ha, drop_eq_getElem_cons ha, take_succ_cons, ← ih]
    · rw [List.getElem?_eq_none ha, ih, drop_eq_nil_of_le ha,
        drop_eq_nil_of_le (Nat.le_succ_of_le ha), take_nil, take_nil]

theorem getKeyFromIndex_iter (ordered : T.Carrier) :
    T.getKeyFromIndex ordered = fun i => (T.iter ordered)[i]? :=
  funext (T.getKeyFromIndex_eq ordered)

/-- Both forward strategies walk the same keys. -/
theorem orderedSlice_eq (ordered : T.Carrier) {start stop : ℕ} (h : start ≤ stop) :
    orderedSlice ordered start stop = ((T.iter ordered).drop start).take (stop - start + 1) := by
  unfold orderedSlice keysFromIndices
  dsimp only
  split_ifs
  · rw [getKeyFromIndex_iter, filterMap_range', Nat.succ_sub h]
  · rfl

/-- The reverse walk by position is the forward walk over the reversed list. -/
theorem reverse_slice (xs : List α) {start stop : ℕ} (h : start ≤ stop) (hlt : stop < xs.length) :
    ((xs.drop (xs.length - 1 - stop)).take
        (xs.length - 1 - start + 1 - (xs.length - 1 - stop))).reverse =
      (xs.reverse.drop start).take (stop - start + 1) := by
  rw [drop_reverse, take_reverse, length_take, drop_take]
  congr 3 <;> omega

/-- The keys in the direction of a traversal. -/
def walkedKeys (l : ScoreList σ μ) (rev : Bool) : List (ZSetOrderKey σ μ) :=
  if rev then l.keys.reverse else l.keys

theorem rangeEntriesVisit_eq (h : object.Refines l) (start stop : ℤ) (rev : Bool) :
    object.rangeEntriesVisit start stop rev = .begin (slice (walkedKeys l rev) start stop).length ::
        (slice (walkedKeys l rev) start stop).map fun key =>
          .entry (memberOf key) (entryOf key).2 := by
  have hwalked : (walkedKeys l rev).length = l.keys.length := by
    cases rev with
    | false => rfl
    | true => exact length_reverse
  unfold rangeEntriesVisit
  cases object with
  | small entries =>
    have hlen : entries.length = (walkedKeys l rev).length := (len_eq h).trans hwalked.symm
    have hkeys : (if rev then entries.reverse else entries).map orderKey = walkedKeys l rev := by
      cases rev with
      | false => exact h
      | true => exact (map_reverse ..).trans (congrArg List.reverse h)
    dsimp only
    rw [hlen]
    rcases slice_cases (walkedKeys l rev) start stop with
      ⟨hn, hs⟩ | ⟨first, last, hn, _, _, hs, hsize⟩
    · rw [hn, hs]
      rfl
    · rw [hn, hsize, hs, ← hkeys, ← map_drop, ← map_take, map_map]
      rfl
  | map scores ordered =>
    dsimp only
    rw [T.len_eq, h.1, ← hwalked]
    rcases slice_cases (walkedKeys l rev) start stop with
      ⟨hn, hs⟩ | ⟨first, last, hn, hle, hlt, hs, hsize⟩
    · rw [hn, hs]
      rfl
    · rw [hn, hsize, hs]
      cases rev with
      | false =>
        dsimp only
        rw [if_neg Bool.false_ne_true, orderedSlice_eq ordered hle, h.1]
        rfl
      | true =>
        have hlt' : last < l.keys.length := hwalked ▸ hlt
        dsimp only
        rw [if_pos rfl, filterMap_reverse, getKeyFromIndex_iter, filterMap_range', h.1,
          hwalked, reverse_slice l.keys hle hlt']
        rfl

theorem rangeVisit_eq (h : object.Refines l) (start stop : ℤ) : object.rangeVisit start stop =
      .begin (slice l.keys start stop).length ::
        (slice l.keys start stop).map fun key => .bulk (some (memberOf key)) := by
  have hitems : object.rangeVisit start stop = (object.rangeEntriesVisit start stop false).map
      fun | .begin count => .begin count | .entry member _ => .bulk (some member) := by
    unfold rangeVisit rangeEntriesVisit
    cases object <;> dsimp only <;> split <;> simp [Function.comp_def]
  rw [hitems, rangeEntriesVisit_eq h, map_cons, map_map]
  rfl

theorem range_eq (h : object.Refines l) (start stop : ℤ) :
    object.range start stop = (slice l.keys start stop).map fun key => some (memberOf key) := by
  have hitems : (object.range start stop).map .bulk = (object.rangeVisit start stop).tail := by
    unfold range rangeVisit
    cases object <;> dsimp only <;> split <;> simp [Function.comp_def]
  rw [rangeVisit_eq h, tail_cons] at hitems
  exact map_injective_iff.mpr (fun _ _ => RedisObjectArrayItem.bulk.inj)
    (hitems.trans (map_map ..).symm)

/-- Everything that can be observed of an object, computed from the list alone. -/
structure Agrees (object : ZSetObject T) (l : ScoreList σ μ) : Prop where
  indexes : ∀ scores ordered, object = .map scores ordered → ∀ member score,
    scores.lookup member = some score ↔ orderKey (member, score) ∈ T.iter ordered
  score : ∀ member, object.score member = l.score member
  len : object.len = l.keys.length
  isEmpty : object.isEmpty = l.keys.isEmpty
  rank : ∀ member rev, object.rank member rev = l.rank member rev
  range : ∀ start stop,
    object.range start stop = (slice l.keys start stop).map fun key => some (memberOf key)
  rangeVisit : ∀ start stop, object.rangeVisit start stop =
    .begin (slice l.keys start stop).length ::
      (slice l.keys start stop).map fun key => .bulk (some (memberOf key))
  rangeEntriesVisit : ∀ start stop rev, object.rangeEntriesVisit start stop rev =
    .begin (slice (walkedKeys l rev) start stop).length ::
      (slice (walkedKeys l rev) start stop).map fun key => .entry (memberOf key) (entryOf key).2
  entries : object.entries = l.keys.map entryOf

theorem Refines.agrees (h : object.Refines l) : object.Agrees l where
  indexes := by
    -- both indexes of a promoted object hold the same pairs
    rintro scores ordered rfl member score
    rw [h.2, h.1]
    exact ScoreList.score_eq_some_iff
  score := score_eq h
  len := len_eq h
  isEmpty := isEmpty_eq h
  rank := rank_eq h
  range := range_eq h
  rangeVisit := rangeVisit_eq h
  rangeEntriesVisit := rangeEntriesVisit_eq h
  entries := entries_eq h

end ZSetObject

inductive ZSetOp (σ μ : Type u)
  | insert (member : μ) (score : σ)
  | remove (member : μ)
  | popExtreme (count : ℕ) (max : Bool)

inductive ZSetReply (σ μ : Type u)
  | changed (flag : Bool)
  | popped (items : List (μ × σ))
  deriving DecidableEq

namespace ZSetOp

variable {T : OrderedIndex (ZSetOrderKey σ μ)}

def apply (object : ZSetObject T) : ZSetOp σ μ → ZSetReply σ μ × ZSetObject T
  | .insert member score =>
    let out := object.insertSlice member score
    (.changed out.1, out.2)
  | .remove member =>
    let out := object.remove member
    (.changed out.1, out.2)
  | .popExtreme count max =>
    let out := object.popExtreme count max
    (.popped out.1, out.2)

/-- The same call on the reference list. -/
def applyList (l : ScoreList σ μ) : ZSetOp σ μ → ZSetReply σ μ × ScoreList σ μ
  | .insert member score => (.changed (l.score member).isNone, l.insert member score)
  | .remove member => (.changed (l.score member).isSome, l.remove member)
  | .popExtreme count max => (.popped (l.pop count max).1, (l.pop count max).2)

def run (object : ZSetObject T) : List (ZSetOp σ μ) → List (ZSetReply σ μ) × ZSetObject T
  | [] => ([], object)
  | op :: ops =>
    let out := apply object op
    let rest := run out.2 ops
    (out.1 :: rest.1, rest.2)

def runList (l : ScoreList σ μ) : List (ZSetOp σ μ) → List (ZSetReply σ μ) × ScoreList σ μ
  | [] => ([], l)
  | op :: ops =>
    let out := applyList l op
    let rest := runList out.2 ops
    (out.1 :: rest.1, rest.2)

theorem apply_spec {object : ZSetObject T} {l : ScoreList σ μ} (h : object.Refines l)
    (op : ZSetOp σ μ) :
    (apply object op).1 = (applyList l op).1 ∧ (apply object op).2.Refines (applyList l op).2 := by
  cases op with
  | insert member score =>
    obtain ⟨hreply, hnext⟩ := insertSlice_spec h member score
    exact ⟨congrArg _ hreply, hnext⟩
  | remove member =>
    obtain ⟨hreply, hnext⟩ := remove_spec h member
    exact ⟨congrArg _ hreply, hnext⟩
  | popExtreme count max =>
    obtain ⟨hreply, hnext⟩ := popExtreme_spec h count max
    exact ⟨congrArg _ hreply, hnext⟩

theorem run_spec (ops : List (ZSetOp σ μ)) : ∀ {object : ZSetObject T} {l : ScoreList σ μ},
    object.Refines l →
      (run object ops).1 = (runList l ops).1 ∧ (run object ops).2.Refines (runList l ops).2 := by
  induction ops with
  | nil => exact fun h => ⟨rfl, h⟩
  | cons op ops ih =>
    intro object l h
    obtain ⟨hreply, hnext⟩ := apply_spec h op
    obtain ⟨hreplies, hlast⟩ := ih hnext
    refine ⟨?_, hlast⟩
    change _ :: _ = _ :: _
    rw [hreply, hreplies]

end ZSetOp

/-- From either empty form, every run of insertions, removals and pops gives the
replies of the sorted list of unique members, and the object it reaches, inline
or promoted, answers every observer from that list. -/
theorem ZSetOp.run_agrees_with_sorted_list (T : OrderedIndex (ZSetOrderKey σ μ))
    (ops : List (ZSetOp σ μ)) (object : ZSetObject T)
    (hempty : object = .small [] ∨ object = .mapWithCapacity) :
    (run object ops).1 = (runList .empty ops).1 ∧
      (run object ops).2.Agrees (runList .empty ops).2 := by
  have hstart : object.Refines .empty := by
    rcases hempty with rfl | rfl
    · exact refines_small_empty
    · exact refines_mapWithCapacity
  obtain ⟨hreplies, hlast⟩ := run_spec ops hstart
  exact ⟨hreplies, hlast.agrees⟩

/-- Five insertions, which promote, then a rescoring, a removal and a pop from the top. -/
def ZSetOp.sampleRun : List (ZSetOp ℕ ℕ) :=
  [.insert 1 5, .insert 2 3, .insert 3 3, .insert 4 9, .insert 5 1, .insert 4 2, .remove 3,
    .popExtreme 1 true]

theorem ZSetOp.run_agrees_with_sorted_list_sample :
    (runList .empty sampleRun).2.keys.map entryOf = [(5, 1), (4, 2), (2, 3)] ∧
      (run (.small [] : ZSetObject (sortedListIndex (ZSetOrderKey ℕ ℕ))) sampleRun).1 =
        (runList .empty sampleRun).1 ∧
      (run (.small [] : ZSetObject (sortedListIndex (ZSetOrderKey ℕ ℕ))) sampleRun).2.Agrees
        (runList .empty sampleRun).2 :=
  ⟨by decide, run_agrees_with_sorted_list _ sampleRun (.small []) (Or.inl rfl)⟩

end ShardKv
