import ShardKv.Persistence.KeyReplay

/-!
# Pruning the log after a snapshot

Recovery replays the records stamped with the snapshot's own time, but pruning
removes a segment whose latest record carries exactly that time. The recovered
state survives when each such record is overwritten by one that stays, or writes
what the snapshot already holds.
-/
namespace ShardKv

open RecoveryAccumulator MutationRecord List
variable {segments : List Segment} {error : String}

/-- Two outcomes of a recovery with the same error or the same entries. -/
def SameRecovery : Except String RecoveryAccumulator → Except String RecoveryAccumulator → Prop
  | .ok left, .ok right =>
    left.snapshotTimestampMs = right.snapshotTimestampMs ∧
      ∀ key, left.entries.lookup key = right.entries.lookup key
  | .error left, .error right => left = right
  | _, _ => False

variable (timestampMs : ℕ) (records : List MutationRecord)

/-- The segment holds a record later than the given time. -/
def holdsLater : Bool :=
  records.any fun record => decide (timestampMs < record.timestampMs)

/-- The records of the segments with something later than the given time, and of the last one. -/
def recordsPast (timestampMs : ℕ) : List (List MutationRecord) → List MutationRecord
  | [] => []
  | [last] => last
  | segment :: next :: segments =>
    (if holdsLater timestampMs segment then segment else []) ++
      recordsPast timestampMs (next :: segments)

variable (snapshot : LoadedSnapshot)

/-- The records of a key that recovery replays over the snapshot. -/
def LoadedSnapshot.replayed (key : Bytes) (records : List MutationRecord) : List MutationRecord :=
  recordsOf key (replayable snapshot.timestampMs records)

/-- What the replay makes of the cell of a key. -/
def LoadedSnapshot.cellAfter (key : Bytes) (records : List MutationRecord)
    (cell : Option StoredEntry) : Option StoredEntry :=
  ((snapshot.replayed key records).map edit).foldl (fun cell edit => edit.apply redate cell) cell

/-- A replayed record writes or deletes the key. -/
def Overwritten (key : Bytes) (records : List MutationRecord) : Prop :=
  ∃ record ∈ snapshot.replayed key records, record.op ≠ .expire

/-- The snapshot's entry of the key is what each replayed record would make of it. -/
def AlreadyHeld (key : Bytes) (records : List MutationRecord) : Prop :=
  ∀ record ∈ snapshot.replayed key records,
    record.edit.apply redate (snapshot.entryOf key) = snapshot.entryOf key

/-- After the records in front, a closed segment that ends at the snapshot's time matters to no
key: a segment that stays overwrites the key, or the snapshot already holds what the records up
to this segment write. -/
def BoundaryHarmless (front : List MutationRecord) : List (List MutationRecord) → Prop
  | [] => True
  | [_] => True
  | segment :: next :: segments =>
    (holdsLater snapshot.timestampMs segment = true ∨
        ∀ record ∈ replayable snapshot.timestampMs segment,
          Overwritten snapshot record.key (recordsPast snapshot.timestampMs (next :: segments)) ∨
            AlreadyHeld snapshot record.key (front ++ segment)) ∧
      BoundaryHarmless (front ++ segment) (next :: segments)

instance (key : Bytes) (records : List MutationRecord) :
    Decidable (Overwritten snapshot key records) :=
  inferInstanceAs (Decidable (∃ _ ∈ snapshot.replayed key records, _))

instance (key : Bytes) (records : List MutationRecord) :
    Decidable (AlreadyHeld snapshot key records) :=
  inferInstanceAs (Decidable (∀ _ ∈ snapshot.replayed key records, _ = _))

instance decidableBoundaryHarmless : (front : List MutationRecord) →
    (contents : List (List MutationRecord)) → Decidable (BoundaryHarmless snapshot front contents)
  | _, [] => .isTrue trivial
  | _, [_] => .isTrue trivial
  | front, segment :: next :: segments =>
    haveI := decidableBoundaryHarmless (front ++ segment) (next :: segments)
    inferInstanceAs (Decidable (_ ∧ _))

theorem readAll_map_ok (contents : List (List MutationRecord)) :
    readAll (contents.map Except.ok) = .ok contents.flatten := by
  induction contents with
  | nil => rfl
  | cons records contents ih =>
    rw [map_cons, readAll, ih]
    rfl

/-- Either every segment is readable or reading fails. -/
theorem readAll_cases (segments : List Segment) :
    (∃ contents : List (List MutationRecord), segments = contents.map Except.ok) ∨
      ∃ error, readAll segments = .error error := by
  induction segments with
  | nil => exact .inl ⟨[], rfl⟩
  | cons segment segments ih =>
    cases segment with
    | error error => exact .inr ⟨error, rfl⟩
    | ok records =>
      rcases ih with ⟨contents, rfl⟩ | ⟨error, herror⟩
      · exact .inl ⟨records :: contents, rfl⟩
      · refine .inr ⟨error, ?_⟩
        rw [readAll, herror]
        rfl

theorem loadEnabled_map_ok (contents : List (List MutationRecord)) :
    loadEnabled (some snapshot) (contents.map Except.ok) =
      .ok ((applySnapshot {} snapshot).replayRecords contents.flatten) := by
  rw [loadEnabled, readAll_map_ok]
  rfl

theorem loadEnabled_error (h : readAll segments = .error error) (latest : Option LoadedSnapshot) :
    loadEnabled latest segments = .error error := by
  rw [loadEnabled, h]
  rfl

theorem pruneDecision_eq (timestampMs : ℕ) :
    pruneDecision records timestampMs =
      if holdsLater timestampMs records then .keep else .remove := by
  have hall : (records.all fun record => decide (record.timestampMs ≤ timestampMs)) =
      !holdsLater timestampMs records := by
    rw [holdsLater, not_any_eq_all_not]
    congr 1
    funext record
    simp only [← Nat.not_lt, decide_not]
  cases records with
  | nil => rfl
  | cons record records =>
    rw [pruneDecision, hall]
    · cases holdsLater timestampMs (record :: records) <;> rfl
    · exact cons_ne_nil record records

theorem pruneOldPaths_map_ok (contents : List (List MutationRecord)) :
    ∃ kept : List (List MutationRecord),
      pruneOldPaths timestampMs (contents.map Except.ok) = (.ok (), kept.map Except.ok) ∧
      kept.flatten = (contents.filter (holdsLater timestampMs)).flatten := by
  induction contents with
  | nil => exact ⟨[], rfl, rfl⟩
  | cons records contents ih =>
    obtain ⟨kept, hpruned, hflat⟩ := ih
    rw [map_cons, pruneOldPaths, hpruned, pruneDecision_eq]
    cases hlater : holdsLater timestampMs records with
    | true =>
      refine ⟨records :: kept, rfl, ?_⟩
      rw [filter_cons_of_pos hlater, flatten_cons, flatten_cons, hflat]
    | false =>
      refine ⟨kept, rfl, ?_⟩
      rw [filter_cons_of_neg (by rw [hlater]; exact Bool.false_ne_true), hflat]

theorem recordsPast_append_last (front : List (List MutationRecord)) (last : List MutationRecord) :
    recordsPast timestampMs (front ++ [last]) =
      (front.filter (holdsLater timestampMs)).flatten ++ last := by
  induction front with
  | nil => rfl
  | cons records front ih =>
    obtain ⟨next, rest, hsplit⟩ : ∃ next rest, front ++ [last] = next :: rest :=
      exists_cons_of_ne_nil (by simp)
    rw [cons_append, hsplit, recordsPast, ← hsplit, ih]
    split_ifs with hlater
    · rw [filter_cons_of_pos hlater, flatten_cons, append_assoc]
    · rw [filter_cons_of_neg hlater]
      rfl

/-- Pruning readable segments leaves the records past the snapshot and the last segment. -/
theorem pruneThrough_map_ok (contents : List (List MutationRecord)) :
    ∃ kept : List (List MutationRecord),
      pruneThrough (contents.map Except.ok) timestampMs = (.ok (), kept.map Except.ok) ∧
      kept.flatten = recordsPast timestampMs contents := by
  rcases eq_nil_or_concat' contents with rfl | ⟨front, last, rfl⟩
  · exact ⟨[], rfl, rfl⟩
  · unfold pruneThrough
    split_ifs with hshort
    · have hfront : front = [] := by
        rw [length_map, length_append] at hshort
        exact eq_nil_of_length_eq_zero (by simpa using hshort)
      subst hfront
      exact ⟨[last], rfl, by simp [recordsPast]⟩
    · obtain ⟨kept, hpruned, hflat⟩ := pruneOldPaths_map_ok timestampMs front
      refine ⟨kept ++ [last], ?_, ?_⟩
      · simp [hpruned]
      · rw [flatten_append, hflat, recordsPast_append_last]
        simp

theorem readAll_ok_cons
    (h : readAll (.ok records :: segments) = .error error) : readAll segments = .error error := by
  rw [readAll] at h
  cases hrest : readAll segments with
  | error other =>
    rw [hrest] at h
    cases h
    rfl
  | ok rest =>
    rw [hrest] at h
    cases h

/-- An unreadable segment survives pruning, and so does the error it gives. -/
theorem readAll_pruneOldPaths_error {tail : List Segment} (front : List Segment)
    (h : readAll (front ++ tail) = .error error) :
    readAll ((pruneOldPaths timestampMs front).2 ++ tail) = .error error := by
  induction front with
  | nil => exact h
  | cons segment front ih =>
    cases segment with
    | error other => exact h
    | ok records =>
      have hrest := ih (readAll_ok_cons records h)
      rw [pruneOldPaths]
      cases pruneDecision records timestampMs with
      | remove => exact hrest
      | keep =>
        change readAll (.ok records :: ((pruneOldPaths timestampMs front).2 ++ tail)) = _
        rw [readAll, hrest]
        rfl

theorem readAll_pruneThrough_error (h : readAll segments = .error error) :
    readAll (pruneThrough segments timestampMs).2 = .error error := by
  unfold pruneThrough
  split_ifs with hshort
  · exact h
  · apply readAll_pruneOldPaths_error
    rw [dropLast_eq_take, take_append_drop]
    exact h

theorem recovered_lookup (records : List MutationRecord) (key : Bytes) :
    ((applySnapshot {} snapshot).replayRecords records).entries.lookup key =
      snapshot.cellAfter key records (snapshot.entryOf key) :=
  replayRecords_lookup_foldl key records _

section

variable {snapshot} {key : Bytes} {records} {front rest : List MutationRecord}

/-- A write or a delete makes the cell before it irrelevant. -/
theorem Overwritten.cellAfter_eq (h : Overwritten snapshot key records)
    (cell other : Option StoredEntry) :
    snapshot.cellAfter key records cell = snapshot.cellAfter key records other := by
  obtain ⟨record, hrecord, hop⟩ := h
  obtain ⟨front, rest, hsplit⟩ := append_of_mem hrecord
  have hedit : ∀ cell other, record.edit.apply redate cell = record.edit.apply redate other := by
    intro cell other
    unfold edit
    cases hrecordOp : record.op with
    | set | del => rfl
    | expire => exact absurd hrecordOp hop
  simp only [LoadedSnapshot.cellAfter, hsplit, map_append, map_cons, foldl_append, foldl_cons]
  rw [hedit]

theorem AlreadyHeld.cellAfter_eq (h : AlreadyHeld snapshot key records) :
    snapshot.cellAfter key records (snapshot.entryOf key) = snapshot.entryOf key := by
  unfold AlreadyHeld at h
  unfold LoadedSnapshot.cellAfter
  generalize snapshot.replayed key records = mine at h
  induction mine with
  | nil => rfl
  | cons record mine ih =>
    rw [map_cons, foldl_cons, h record mem_cons_self]
    exact ih fun later hlater => h later (mem_cons_of_mem _ hlater)

theorem replayed_append :
    snapshot.replayed key (front ++ rest) =
      snapshot.replayed key front ++ snapshot.replayed key rest := by
  simp only [LoadedSnapshot.replayed, replayable, filter_append, recordsOf_append]

theorem alreadyHeld_append : AlreadyHeld snapshot key (front ++ rest) ↔
      AlreadyHeld snapshot key front ∧ AlreadyHeld snapshot key rest := by
  simp only [AlreadyHeld, replayed_append, forall_mem_append]

theorem overwritten_append : Overwritten snapshot key (front ++ rest) ↔
      Overwritten snapshot key front ∨ Overwritten snapshot key rest := by
  simp only [Overwritten, replayed_append, mem_append, or_and_right, exists_or]

theorem cellAfter_append (cell : Option StoredEntry) :
    snapshot.cellAfter key (front ++ rest) cell =
      snapshot.cellAfter key rest (snapshot.cellAfter key front cell) := by
  simp only [LoadedSnapshot.cellAfter, replayed_append, map_append, foldl_append]

/-- Replay with and without the removed segments, from any point of the log on. As long as the
cells differ, a record that stays overwrites both. -/
theorem cellAfter_recordsPast (key : Bytes) (contents : List (List MutationRecord)) :
    ∀ (front : List MutationRecord) (cell : Option StoredEntry),
      BoundaryHarmless snapshot front contents →
      (AlreadyHeld snapshot key front → cell = snapshot.entryOf key) →
      (cell = snapshot.cellAfter key front (snapshot.entryOf key) ∨
        Overwritten snapshot key (recordsPast snapshot.timestampMs contents)) →
      snapshot.cellAfter key (recordsPast snapshot.timestampMs contents) cell =
        snapshot.cellAfter key (front ++ contents.flatten) (snapshot.entryOf key) := by
  fun_induction recordsPast snapshot.timestampMs contents with
  | case1 =>
    intro front cell _ _ hcells
    rcases hcells with hsame | ⟨record, hrecord, -⟩
    · rw [hsame, flatten_nil, append_nil]
      rfl
    · cases hrecord
  | case2 last =>
    intro front cell _ _ hcells
    rw [flatten_singleton, cellAfter_append]
    rcases hcells with hsame | hlater
    · rw [hsame]
    · exact hlater.cellAfter_eq _ _
  | case3 segment next segments ih =>
    intro front cell hharmless hheld hcells
    obtain ⟨hsegment, hrest⟩ := hharmless
    have hnext := ih (front ++ segment)
    rw [flatten_cons, ← append_assoc]
    simp only [cellAfter_append, alreadyHeld_append, overwritten_append] at *
    cases hlater : holdsLater snapshot.timestampMs segment with
    | true =>
      -- both replays go through the segment
      simp only [hlater, if_true] at hcells ⊢
      refine hnext _ hrest ?_ ?_
      · rintro ⟨hfront, hheldSegment⟩
        rw [hheld hfront, hheldSegment.cellAfter_eq]
      · rcases hcells with hsame | hsegmentOver | hrestOver
        · exact .inl (by rw [hsame])
        · exact .inl (hsegmentOver.cellAfter_eq _ _)
        · exact .inr hrestOver
    | false =>
      have hnone : ¬ Overwritten snapshot key [] := by
        rintro ⟨_, hrecord, -⟩
        cases hrecord
      simp only [hlater, if_false, Bool.false_eq_true, hnone, false_or] at hcells hsegment ⊢
      refine hnext cell hrest (fun hfront => hheld hfront.1) ?_
      cases hmine : snapshot.replayed key segment with
      | nil => simpa [LoadedSnapshot.cellAfter, hmine] using hcells
      | cons record mine =>
        have hrecord : record ∈ snapshot.replayed key segment := by
          rw [hmine]
          exact mem_cons_self
        obtain ⟨hmem, hkey⟩ := mem_filter.mp hrecord
        rcases of_decide_eq_true hkey ▸ hsegment record hmem with hover | ⟨hfront, hheldSegment⟩
        · exact .inr hover
        · exact .inl (by rw [hheld hfront, hfront.cellAfter_eq, hheldSegment.cellAfter_eq])

end

/-- A completed snapshot and the segments that pruning leaves recover what the snapshot and all
segments recover, for every list of segments in which no removed record matters. -/
theorem recovery_unchanged_by_pruning (snapshot : LoadedSnapshot) (segments : List Segment)
    (h : ∀ contents : List (List MutationRecord), segments = contents.map Except.ok →
      BoundaryHarmless snapshot [] contents) :
    SameRecovery (loadEnabled (some snapshot) (pruneThrough segments snapshot.timestampMs).2)
      (loadEnabled (some snapshot) segments) := by
  rcases readAll_cases segments with ⟨contents, rfl⟩ | ⟨error, herror⟩
  · obtain ⟨kept, hpruned, hflat⟩ := pruneThrough_map_ok snapshot.timestampMs contents
    rw [hpruned, loadEnabled_map_ok, loadEnabled_map_ok, hflat]
    constructor
    · rw [replayRecords_snapshotTimestampMs, replayRecords_snapshotTimestampMs]
    · intro key
      rw [recovered_lookup, recovered_lookup]
      exact cellAfter_recordsPast key contents [] _ (h contents rfl) (fun _ => rfl) (.inl rfl)
  · rw [loadEnabled_error herror,
      loadEnabled_error (readAll_pruneThrough_error snapshot.timestampMs herror)]
    rfl

def writeAt (timestampMs : ℕ) (key value : Bytes) : MutationRecord where
  shardId := 0
  sequence := timestampMs
  timestampMs := timestampMs
  op := .set
  key := key
  value := value
  expireAtMs := none
  governance := none

/-- The closed segment ends at the time of the snapshot. Its writes are too early, in the snapshot
or repeated in a later segment. -/
def writesUpToSnapshotTime : List (List MutationRecord) :=
  [[writeAt 4 [1] [7], writeAt 5 [2] [9], writeAt 5 [3] [8]],
    [writeAt 5 [3] [6], writeAt 6 [1] [5]], []]

def snapshotAtFive : LoadedSnapshot where
  timestampMs := 5
  entries := [{ key := [2], value := [9], expireAtMs := none, governance := none }]

theorem recovery_unchanged_by_pruning_upToSnapshotTime :
    pruneThrough (writesUpToSnapshotTime.map Except.ok) 5 =
        (.ok (), (writesUpToSnapshotTime.tail).map Except.ok) ∧
      SameRecovery
        (loadEnabled (some snapshotAtFive)
          (pruneThrough (writesUpToSnapshotTime.map Except.ok) 5).2)
        (loadEnabled (some snapshotAtFive) (writesUpToSnapshotTime.map Except.ok)) := by
  refine ⟨by decide, recovery_unchanged_by_pruning snapshotAtFive _ ?_⟩
  intro contents hcontents
  rw [← map_injective_iff.mpr (fun _ _ h => Except.ok.inj h) hcontents]
  decide

/-- One write at the very time of the snapshot, which the snapshot does not hold
yet, in a segment that has already been closed. -/
def writeAtSnapshotTime : List Segment := [.ok [writeAt 5 [107] [1]], .ok []]

def emptySnapshotAtFive : LoadedSnapshot := { timestampMs := 5, entries := [] }

theorem writeAtSnapshotTime_lost : ¬ SameRecovery
      (loadEnabled (some emptySnapshotAtFive) (pruneThrough writeAtSnapshotTime 5).2)
      (loadEnabled (some emptySnapshotAtFive) writeAtSnapshotTime) := by
  intro hsame
  have hkey := hsame.2 [107]
  revert hkey
  decide

end ShardKv
