import ShardKv.Objects.BucketCommands

/-!
# Positions in a list

`LPOS` walks from the head and stops early, or it finds the matches of a window at the tail and
walks back over them. Either way it reports the matches that a reader of the list in that
direction would count.
-/
namespace ShardKv.ListPositions

open List
variable {β : Type} [DecidableEq β] (element : β) (wanted : Option ℕ)

/-- One match: whether the scan is over, the matches still to skip, and the results. -/
def collect (position skip : ℕ) (results : List ℕ) : Bool × ℕ × List ℕ :=
  if 0 < skip then (false, skip - 1, results)
  else
    let results := results ++ [position]
    match wanted with
    | none => (true, skip, results)
    | some 0 => (false, skip, results)
    | some limit => (decide (limit ≤ results.length), skip, results)

/-- The walk over matches that are found already. -/
def collectAll (wanted : Option ℕ) : ℕ → List ℕ → List ℕ → List ℕ
  | _, results, [] => results
  | skip, results, position :: positions =>
    match collect wanted position skip results with
    | (true, _, results) => results
    | (false, skip, results) => collectAll wanted skip results positions

/-- The walk from the head over the numbered items. -/
def scanForward (wanted : Option ℕ) (compareLimit : ℕ) : ℕ → List ℕ → List (β × ℕ) → List ℕ
  | _, results, [] => results
  | skip, results, (item, index) :: items =>
    if compareLimit ≠ 0 ∧ compareLimit ≤ index then results
    else if item = element then
      match collect wanted index skip results with
      | (true, _, results) => results
      | (false, skip, results) => scanForward wanted compareLimit skip results items
    else scanForward wanted compareLimit skip results items

/-- The numbers of the items that are the element. -/
def matched (items : List (β × ℕ)) : List ℕ := (items.filter (·.1 = element)).map (·.2)

variable (list : List β) (rank : ℤ) (count : Option ℕ) (maxlen : ℕ)

/-- The arguments are those of the command: `count` and `maxlen` are not negative there. -/
def lposScan : List ℕ :=
  let skip := rank.natAbs - 1
  if list.length = 0 then []
  else if 0 < rank then scanForward element count maxlen skip [] list.zipIdx
  else
    let windowStart := if maxlen = 0 then 0 else list.length - maxlen
    collectAll count skip []
      (matched element (list.zipIdx.filter fun item => windowStart ≤ item.2)).reverse

/-- As many of the matches as are asked for beyond those that are reported already. -/
def asked (reported : ℕ) (found : List ℕ) : List ℕ :=
  match wanted with
  | none => found.take 1
  | some 0 => found
  | some limit => found.take (limit - reported)

/-- What a reader finds who looks at `maxlen` items from the end that the sign of the rank says. -/
def lposSpec : List ℕ :=
  let walked := if 0 < rank then list.zipIdx else list.zipIdx.reverse
  let looked := if maxlen = 0 then walked else walked.take maxlen
  asked count 0 ((matched element looked).drop (rank.natAbs - 1))

theorem collectAll_eq (positions : List ℕ) : ∀ skip results,
    (∀ limit, wanted = some (limit + 1) → results.length ≤ limit) →
    collectAll wanted skip results positions =
      results ++ asked wanted results.length (positions.drop skip) := by
  induction positions with
  | nil =>
    intro skip results _
    rcases wanted with _ | _ | limit <;> simp [collectAll, asked]
  | cons position positions ih =>
    intro skip results hroom
    cases skip with
    | succ skip => exact ih skip results hroom
    | zero =>
      rw [collectAll, collect, if_neg (lt_irrefl 0)]
      rcases wanted with _ | _ | limit
      · rfl
      · simpa [asked] using ih 0 (results ++ [position]) nofun
      · have hle := hroom limit rfl
        have hsplit : limit + 1 - results.length = limit - results.length + 1 := by omega
        by_cases hfull : limit ≤ results.length
        · have hlast : limit - results.length = 0 := by omega
          simp [asked, hfull, hsplit, hlast]
        · have hrest := ih 0 (results ++ [position]) (by simp; omega)
          simpa [asked, hfull, hsplit] using hrest

theorem scanForward_eq (wanted : Option ℕ) : ∀ start skip results,
    scanForward element wanted maxlen skip results (list.zipIdx start) =
      collectAll wanted skip results (matched element
        (if maxlen = 0 then list.zipIdx start else (list.zipIdx start).take (maxlen - start))) := by
  induction list with
  | nil => simp [scanForward, matched, collectAll]
  | cons item items ih =>
    intro start skip results
    rw [zipIdx_cons, scanForward]
    by_cases hbreak : maxlen ≠ 0 ∧ maxlen ≤ start
    · simp [hbreak, matched, collectAll]
    · have hlooked : (if maxlen = 0 then (item, start) :: items.zipIdx (start + 1)
          else ((item, start) :: items.zipIdx (start + 1)).take (maxlen - start)) =
          (item, start) :: if maxlen = 0 then items.zipIdx (start + 1)
            else (items.zipIdx (start + 1)).take (maxlen - (start + 1)) := by
        split_ifs
        · rfl
        · have hroom : maxlen - start = maxlen - (start + 1) + 1 := by omega
          rw [hroom, take_succ_cons]
      rw [if_neg hbreak, hlooked]
      by_cases hitem : item = element
      · simp only [matched, hitem, filter_cons_of_pos, decide_true, map_cons, collectAll, if_true]
        split
        · rfl
        · exact ih _ _ _
      · simpa [matched, hitem] using ih (start + 1) skip results

omit [DecidableEq β] in
/-- The window at the tail holds the last items. -/
theorem filter_window (first : ℕ) : ∀ start,
    (list.zipIdx start).filter (fun item => start + first ≤ item.2) =
      (list.zipIdx start).drop first := by
  induction list generalizing first with
  | nil => simp
  | cons item items ih =>
    intro start
    cases first with
    | zero =>
      refine filter_eq_self.mpr fun item hitem => ?_
      simpa using le_snd_of_mem_zipIdx hitem
    | succ first =>
      have hrest := ih first (start + 1)
      rw [Nat.add_assoc, Nat.add_comm 1] at hrest
      simpa using hrest

/-- `LPOS` reports the positions that its arguments ask for. -/
theorem lposScan_eq :
    lposScan element list rank count maxlen = lposSpec element list rank count maxlen := by
  have hcollect : ∀ positions, collectAll count (rank.natAbs - 1) [] positions =
      asked count 0 (positions.drop (rank.natAbs - 1)) :=
    fun positions => collectAll_eq count positions _ [] fun _ _ => Nat.zero_le _
  have hreverse : ∀ items,
      (matched element items).reverse = matched element items.reverse := by
    simp [matched, filter_reverse]
  simp only [lposScan, lposSpec]
  by_cases hempty : list.length = 0
  · rw [if_pos hempty, length_eq_zero_iff.mp hempty]
    rcases count with _ | _ | count <;> simp [asked, matched]
  · rw [if_neg hempty]
    by_cases hrank : 0 < rank
    · rw [if_pos hrank, if_pos hrank, scanForward_eq, hcollect, Nat.sub_zero]
    · rw [if_neg hrank, if_neg hrank, hcollect, hreverse]
      split_ifs
      · simp
      · have hwindow := filter_window list (list.length - maxlen) 0
        rw [zero_add] at hwindow
        rw [hwindow, take_reverse, length_zipIdx]

end ShardKv.ListPositions
