import ShardKv.Foundations.CellEdit
import ShardKv.Persistence.Recovery

/-!
# Replay, one key at a time

A record edits the cell of its key: a write fills it, a delete empties it and a
new deadline amends it. What replay leaves under a key is the net edit of the
records of that key that the cutoff lets through.
-/
namespace ShardKv

open MutationRecord

/-- A new deadline amends an entry; the latest one counts. -/
def redate : Amendment StoredEntry (Option ℕ) where
  amend expireAtMs entry := { entry with expireAtMs }
  amend_amend _ _ _ := rfl

abbrev EntryEdit := CellEdit StoredEntry (Option ℕ)

def MutationRecord.edit (record : MutationRecord) : EntryEdit :=
  match record.op with
  | .set => .put {
      key := record.key
      value := record.value
      expireAtMs := record.expireAtMs
      governance := record.governance }
  | .expire => .amend record.expireAtMs
  | .del => .drop

variable (key : Bytes) (records : List MutationRecord)

def recordsOf : List MutationRecord :=
  records.filter fun record => decide (record.key = key)

/-- The records a recovery with this cutoff replays. -/
def replayable (snapshotTimestampMs : ℕ) (records : List MutationRecord) : List MutationRecord :=
  records.filter fun record => decide (snapshotTimestampMs ≤ record.timestampMs)

/-- What the snapshot holds under a key. -/
def LoadedSnapshot.entryOf (snapshot : LoadedSnapshot) (key : Bytes) : Option StoredEntry :=
  (RecoveryAccumulator.applySnapshot {} snapshot).entries.lookup key

theorem recordsOf_cons (record : MutationRecord) (records : List MutationRecord) :
    recordsOf key (record :: records) =
      if record.key = key then record :: recordsOf key records else recordsOf key records := by
  simp [recordsOf, List.filter_cons]

@[simp] theorem recordsOf_append (front rest : List MutationRecord) :
    recordsOf key (front ++ rest) = recordsOf key front ++ recordsOf key rest :=
  List.filter_append ..

/-- Cutting off and selecting a key commute. -/
theorem recordsOf_replayable (cutoff : ℕ) (key : Bytes) (records : List MutationRecord) :
    recordsOf key (replayable cutoff records) = replayable cutoff (recordsOf key records) := by
  simp only [recordsOf, replayable, List.filter_filter]
  congr 1
  funext record
  exact Bool.and_comm _ _

namespace RecoveryAccumulator

variable (recovery : RecoveryAccumulator) (record : MutationRecord)

theorem applyCurrentRecord_lookup (key : Bytes) :
    (recovery.applyCurrentRecord record).entries.lookup key =
      if key = record.key then record.edit.apply redate (recovery.entries.lookup record.key)
      else recovery.entries.lookup key := by
  cases hop : record.op with
  | set =>
    simp only [applyCurrentRecord, applyWrite, edit, hop]
    exact FinMap.lookup_insert_eq ..
  | del =>
    simp only [applyCurrentRecord, edit, hop]
    exact FinMap.lookup_erase_eq ..
  | expire =>
    simp only [applyCurrentRecord, applyExpire, edit, hop]
    cases hkey : recovery.entries.lookup record.key with
    | none => exact (ite_eq_right_iff.mpr fun hsame => by rw [hsame, hkey]; rfl).symm
    | some => exact FinMap.lookup_insert_eq ..

theorem applyCurrentRecord_snapshotTimestampMs :
    (recovery.applyCurrentRecord record).snapshotTimestampMs = recovery.snapshotTimestampMs := by
  cases hop : record.op with
  | set => simp only [applyCurrentRecord, applyWrite, hop]
  | del => simp only [applyCurrentRecord, hop]
  | expire =>
    simp only [applyCurrentRecord, applyExpire, hop]
    cases recovery.entries.lookup record.key <;> rfl

theorem applyRecord_snapshotTimestampMs :
    (recovery.applyRecord record).snapshotTimestampMs = recovery.snapshotTimestampMs := by
  unfold applyRecord
  split
  · rfl
  · exact applyCurrentRecord_snapshotTimestampMs recovery record

theorem replayRecords_snapshotTimestampMs (records : List MutationRecord) :
    ∀ recovery : RecoveryAccumulator,
      (recovery.replayRecords records).snapshotTimestampMs = recovery.snapshotTimestampMs := by
  induction records with
  | nil => exact fun _ => rfl
  | cons record records ih =>
    intro recovery
    exact (ih (recovery.applyRecord record)).trans (applyRecord_snapshotTimestampMs recovery record)

/-- Replay folds the edits of the key's replayable records over its cell. -/
theorem replayRecords_lookup_foldl (key : Bytes) (records : List MutationRecord) :
    ∀ recovery : RecoveryAccumulator, (recovery.replayRecords records).entries.lookup key =
        ((recordsOf key (replayable recovery.snapshotTimestampMs records)).map
          edit).foldl (fun cell edit => edit.apply redate cell)
            (recovery.entries.lookup key) := by
  induction records with
  | nil => exact fun _ => rfl
  | cons record records ih =>
    intro recovery
    have hrest := ih (recovery.applyRecord record)
    rw [applyRecord_snapshotTimestampMs] at hrest
    refine hrest.trans ?_
    unfold replayable
    rw [List.filter_cons]
    by_cases hcut : recovery.snapshotTimestampMs ≤ record.timestampMs
    · have hcurrent : recovery.applyRecord record = recovery.applyCurrentRecord record :=
        if_neg (Nat.not_lt.mpr hcut)
      rw [hcurrent, if_pos (decide_eq_true hcut), recordsOf_cons, applyCurrentRecord_lookup]
      by_cases hkey : record.key = key
      · subst hkey
        rw [if_pos rfl, if_pos rfl]
        rfl
      · rw [if_neg hkey, if_neg (Ne.symm hkey)]
    · have hskipped : recovery.applyRecord record = recovery := if_pos (Nat.not_le.mp hcut)
      rw [hskipped, if_neg (by simpa using hcut)]

/-- A stretch of the log that is replayed twice in a row counts once. -/
theorem replayRecords_again (before again after : List MutationRecord) (key : Bytes) :
    (recovery.replayRecords (before ++ again ++ again ++ after)).entries.lookup key =
      (recovery.replayRecords (before ++ again ++ after)).entries.lookup key := by
  simp only [replayRecords_lookup_foldl, replayable, List.filter_append, recordsOf_append,
    List.map_append, List.foldl_append, ← CellEdit.net_apply, CellEdit.apply_apply]

end RecoveryAccumulator
end ShardKv
