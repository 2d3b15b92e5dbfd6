import ShardKv.Foundations.Bytes

/-!
# Ranges of module commands

Time series and bitmaps are kept in ordered maps of the standard library, whose `range` panics
when its bounds are reversed, unless the map has no root: the commands pass the bounds of the
client on as they are.
-/
namespace ShardKv

open List

/-- A map that was emptied by removals still has its root. -/
structure BTreeMap (κ ν : Type) [LinearOrder κ] where
  entries : List (κ × ν)
  hasRoot : Bool
  sorted : entries.Pairwise fun a b => a.1 < b.1
  rooted : entries ≠ [] → hasRoot = true

namespace BTreeMap

variable {κ ν : Type} [LinearOrder κ] (map : BTreeMap κ ν) (start stop : κ)

def between : List (κ × ν) := map.entries.filter fun entry => start ≤ entry.1 ∧ entry.1 ≤ stop

/-- A panic is `none`. -/
def range : Option (List (κ × ν)) :=
  if map.hasRoot ∧ stop < start then none else some (map.between start stop)

/-- The copy of an empty map has no root. -/
def clone : BTreeMap κ ν where
  entries := map.entries
  hasRoot := !map.entries.isEmpty
  sorted := map.sorted
  rooted := by simp

def remove (key : κ) : BTreeMap κ ν where
  entries := map.entries.filter (·.1 ≠ key)
  hasRoot := map.hasRoot
  sorted := map.sorted.filter _
  rooted h := map.rooted fun hnil => h (by rw [hnil]; rfl)

/-- The bounds that a range of the map takes. -/
def admits : Bool := !map.hasRoot || start ≤ stop

variable {map start stop}

theorem range_eq : map.range start stop =
    if map.admits start stop then some (map.between start stop) else none := by
  unfold range admits
  cases map.hasRoot <;> simp [← not_le, ite_not]

theorem range_of_ends {first last : κ × ν} (hfirst : map.entries.head? = some first)
    (hlast : map.entries.getLast? = some last) (hstart : start ≤ first.1) (hstop : last.1 ≤ stop) :
    map.range start stop = some map.entries := by
  have hsorted := map.sorted
  have hlower : ∀ entry ∈ map.entries, start ≤ entry.1 := by
    obtain ⟨rest, hentries⟩ := head?_eq_some_iff.mp hfirst
    rw [hentries] at hsorted ⊢
    rw [forall_mem_cons]
    exact ⟨hstart, fun entry hentry => hstart.trans (rel_of_pairwise_cons hsorted hentry).le⟩
  have hupper : ∀ entry ∈ map.entries, entry.1 ≤ stop := by
    obtain ⟨init, hentries⟩ := getLast?_eq_some_iff.mp hlast
    rw [hentries] at hsorted ⊢
    intro entry hentry
    rcases mem_append.mp hentry with hinit | hend
    · exact ((pairwise_append.mp hsorted).2.2 entry hinit last (by simp)).le.trans hstop
    · rw [mem_singleton.mp hend]
      exact hstop
  have hadmits : map.admits start stop = true := by
    have hmem := mem_of_getLast? hlast
    simp [admits, (hlower last hmem).trans (hupper last hmem)]
  rw [range_eq, if_pos hadmits, between, filter_eq_self.mpr]
  exact fun entry hentry => decide_eq_true ⟨hlower entry hentry, hupper entry hentry⟩

/-- Removals one by one leave what is not on the list. -/
theorem entries_foldl_remove (keys : List κ) : ∀ map : BTreeMap κ ν,
    (keys.foldl remove map).entries = map.entries.filter (·.1 ∉ keys) := by
  induction keys with
  | nil => simp
  | cons key keys ih =>
    intro map
    rw [foldl_cons, ih, remove, filter_filter]
    simp only [mem_cons, not_or, Bool.decide_and, Bool.and_comm]

theorem entries_foldl_between : (((map.between start stop).map Prod.fst).foldl remove map).entries =
    map.entries.filter fun entry => ¬(start ≤ entry.1 ∧ entry.1 ≤ stop) := by
  rw [entries_foldl_remove]
  refine filter_congr fun entry hentry => decide_eq_decide.mpr (not_congr ?_)
  simp only [between, mem_map, mem_filter, decide_eq_true_eq]
  constructor
  · rintro ⟨found, hfound, hkey⟩
    exact hkey ▸ hfound.2
  · exact fun hbounds => ⟨entry, ⟨hentry, hbounds⟩, rfl⟩

end BTreeMap

structure TimeSeriesSample where
  raw : Bytes
  encodedResp : Bytes

abbrev TimeSeries := BTreeMap ℤ TimeSeriesSample

namespace TimeSeries

open BTreeMap

def inOrder {α : Type} (reverse : Bool) (rows : List α) : List α :=
  if reverse then rows.reverse else rows

def tsSampleRow (entry : ℤ × TimeSeriesSample) : ℤ × Bytes := (entry.1, entry.2.raw)

variable (series : TimeSeries) (selected : List (Bytes × TimeSeries)) (start stop : ℤ)
  (reverse : Bool)

def tsRangeLen : Option ℕ :=
  match series.entries.head?, series.entries.getLast? with
  | some first, some last =>
    if start ≤ first.1 ∧ last.1 ≤ stop then some series.entries.length
    else (series.range start stop).map List.length
  | _, _ => (series.range start stop).map List.length

/-- `TS.RANGE` and `TS.REVRANGE` of a series. -/
def tsRangeRows : Option (List (ℤ × Bytes)) :=
  (series.range start stop).map fun found => (inOrder reverse found).map tsSampleRow

def tsRangeRowValues : Option (List (ℤ × Bytes)) := do
  -- the length is asked for to reserve room
  let _ ← tsRangeLen series start stop
  let found ← series.range start stop
  return inOrder reverse (found.map tsSampleRow)

/-- The announced number of samples and the samples. -/
def writeTimeseriesRangeSeries : Option (ℕ × List Bytes) := do
  let samples ← tsRangeLen series start stop
  let found ← series.range start stop
  return (samples, (inOrder reverse found).map (·.2.encodedResp))

/-- `TS.MRANGE` and `TS.MREVRANGE` over the series that match, by key. -/
def timeseriesMultiRangeRows : Option (List (Bytes × List (ℤ × Bytes))) :=
  selected.mapM fun item => (tsRangeRowValues item.2 start stop reverse).map (item.1, ·)

def writeTimeseriesMultiRange : Option (List (Bytes × ℕ × List Bytes)) :=
  selected.mapM fun item => (writeTimeseriesRangeSeries item.2 start stop reverse).map (item.1, ·)

/-- `TS.DEL`. -/
def tsDel : Option (ℕ × TimeSeries) := (series.range start stop).map fun found =>
    (found.length, (found.map Prod.fst).foldl remove series)

/-- `R.RANGEINTARRAY`, on a copy of the bitmap; a reply is a signed word. -/
def rangeIntArray (bits : BTreeMap ℕ Unit) (start stop : ℕ) : Option (List ℤ) :=
  (bits.clone.range start stop).map fun found => found.map fun bit => Int.bmod bit.1 (2 ^ 64)

variable {series selected start stop reverse}

/-- The short cut is no different from counting. -/
theorem tsRangeLen_eq : tsRangeLen series start stop =
    (series.range start stop).map List.length := by
  unfold tsRangeLen
  split
  next first last hfirst hlast =>
    split_ifs with hends
    · rw [range_of_ends hfirst hlast hends.1 hends.2]
      rfl
    · rfl
  next => rfl

theorem mapM_range_eq_some_iff {γ : Type}
    (row : Bytes × TimeSeries → List (ℤ × TimeSeriesSample) → γ) :
    selected.mapM (fun item => (item.2.range start stop).map (row item)) =
        some (selected.map fun item => row item (item.2.between start stop)) ↔
      selected.all (·.2.admits start stop) := by
  induction selected with
  | nil => simp
  | cons item selected ih =>
    rw [mapM_cons, all_cons, Bool.and_eq_true, ← ih, range_eq]
    cases item.2.admits start stop with
    | false => simp
    | true =>
      cases selected.mapM fun item => (item.2.range start stop).map (row item) <;> simp

theorem bmod_eq_self_iff (bit : ℕ) : Int.bmod bit (2 ^ 64) = bit ↔ bit < 2 ^ 63 := by
  rw [Int.bmod_def]
  split_ifs <;> omega

/-- Every command answers the entries between its bounds, in its order, exactly when each map
it ranges over takes the bounds; bits must also fit a signed word. -/
theorem ranges_exact_iff (series : TimeSeries) (selected : List (Bytes × TimeSeries))
    (start stop : ℤ) (reverse : Bool) (bits : BTreeMap ℕ Unit) (low high : ℕ) :
    (tsRangeRows series start stop reverse =
        some ((inOrder reverse (series.between start stop)).map tsSampleRow) ↔
      series.admits start stop) ∧
    ((tsDel series start stop).map (fun out => (out.1, out.2.entries)) =
        some ((series.between start stop).length,
          series.entries.filter fun entry => ¬(start ≤ entry.1 ∧ entry.1 ≤ stop)) ↔
      series.admits start stop) ∧
    (timeseriesMultiRangeRows selected start stop reverse = some (selected.map fun item => (item.1,
          inOrder reverse ((item.2.between start stop).map tsSampleRow))) ↔
      selected.all (·.2.admits start stop)) ∧
    (writeTimeseriesMultiRange selected start stop reverse =
        some (selected.map fun item => (item.1, (item.2.between start stop).length,
          (inOrder reverse (item.2.between start stop)).map (·.2.encodedResp))) ↔
      selected.all (·.2.admits start stop)) ∧
    (rangeIntArray bits low high = some ((bits.between low high).map fun bit => (bit.1 : ℤ)) ↔
      bits.clone.admits low high ∧ (bits.between low high).all (·.1 < 2 ^ 63)) := by
  have hvalues (item : Bytes × TimeSeries) :
      (tsRangeRowValues item.2 start stop reverse).map (item.1, ·) =
        (item.2.range start stop).map fun found =>
          (item.1, inOrder reverse (found.map tsSampleRow)) := by
    simp only [tsRangeRowValues, tsRangeLen_eq]
    cases item.2.range start stop <;> rfl
  have hwritten (item : Bytes × TimeSeries) :
      (writeTimeseriesRangeSeries item.2 start stop reverse).map (item.1, ·) =
        (item.2.range start stop).map fun found =>
          (item.1, found.length, (inOrder reverse found).map (·.2.encodedResp)) := by
    simp only [writeTimeseriesRangeSeries, tsRangeLen_eq]
    cases item.2.range start stop <;> rfl
  simp only [timeseriesMultiRangeRows, writeTimeseriesMultiRange, hvalues, hwritten]
  refine ⟨?_, ?_, mapM_range_eq_some_iff _, mapM_range_eq_some_iff _, ?_⟩
  · cases hadmits : series.admits start stop <;> simp [tsRangeRows, range_eq, hadmits]
  · cases hadmits : series.admits start stop <;>
      simp [tsDel, range_eq, hadmits, entries_foldl_between]
  · have hcopy : bits.clone.between low high = bits.between low high := rfl
    cases hadmits : bits.clone.admits low high with
    | false => simp [rangeIntArray, range_eq, hadmits]
    | true =>
      simp only [rangeIntArray, range_eq, hadmits, hcopy, if_true, Option.map_some,
        Option.some.injEq, map_inj_left, bmod_eq_self_iff, all_eq_true, decide_eq_true_eq, true_and]

/-- One sample. -/
def oneSample : TimeSeries := ⟨[(5, ⟨[49], []⟩)], true, by simp, fun _ => rfl⟩

theorem reversed_range_panics : tsRangeRows oneSample 10 1 false = none := by
  decide

end TimeSeries
end ShardKv
