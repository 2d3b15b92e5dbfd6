import ShardKv.Storage.OverflowCells

/-!
# Read-modify-write commands and deadlines

The commands that write a string from its old value reach the flat map in three ways:
by the transform that clears the deadline, by a set without deadline, and by an update
in place of an entry that has none. So a deadline never outlives such a write.
-/
namespace ShardKv

/-- A command, after its arguments are parsed. -/
inductive ValueCommand
  /-- `APPEND`, `INCR`, `BITFIELD`, `XADD` and their kin differ in the edit only. -/
  | transform (edit : Option Bytes → Except String (ℤ × Bytes))
  | setRange (offset : ℕ) (replacement : Bytes)
  /-- The update in place also asks that nobody else holds the buffer. -/
  | setBit (offset : ℕ) (bit isUnique : Bool)

namespace ValueCommand

def appendValue (suffix : Bytes) : ValueCommand := .transform fun existing =>
    let value := existing.getD [] ++ suffix
    .ok (value.length, value)

/-- `INCR`, `DECR` and their kin; the text of numbers is the library's. -/
def integerTransformValue (parseI64 : Bytes → Option ℤ) (format : ℤ → Bytes)
    (apply : ℤ → Option ℤ) : ValueCommand :=
  .transform fun existing =>
    match if existing.getD [] = [] then some 0 else existing.bind parseI64 with
    | none => .error "ERR value is not an integer or out of range"
    | some current =>
      match apply current with
      | none => .error "ERR increment or decrement would overflow"
      | some next => .ok (next, format next)

variable (value : Bytes)

def resize (len : ℕ) : Bytes := value ++ List.replicate (len - value.length) 0

variable (offset : ℕ)

def bitMask : UInt8 := 1 <<< (7 - offset % 8).toUInt8

def readBit : Bool := value.getD (offset / 8) 0 &&& bitMask offset ≠ 0

def writeBit (bit : Bool) : Bytes :=
  value.modify (offset / 8) fun byte =>
    if bit then byte ||| bitMask offset else byte &&& ~~~bitMask offset

/-- A command on the flat map that holds its key. -/
def execute (map : FlatMap) (outside : Outside) (key : Bytes) (nowMs : ℕ) :
    ValueCommand → Except String ℤ × FlatMap
  | .transform edit => map.transformValueHashed outside key nowMs true edit
  | .setRange offset replacement =>
    let (existing, map) := map.get outside key nowMs
    let value := resize (existing.getD []) (offset + replacement.length)
    let value := value.take offset ++ replacement ++ value.drop (offset + replacement.length)
    (.ok value.length, map.setBytesHashedWithGovernanceOption outside key value none none nowMs)
  | .setBit offset bit isUnique =>
    let (hit, updated) := map.updateValueHashedNoTtl key isUnique
      { apply := fun value => writeBit value offset bit
        length_apply := fun _ => List.length_modify .. }
    match (map.entries.lookup key).filter fun entry => hit && offset / 8 < entry.value.length with
    | some entry => (.ok (readBit entry.value offset).toInt, updated)
    | none =>
      -- an update behind the end of the value has not written anything
      updated.transformValueHashed outside key nowMs true fun existing =>
        let value := resize (existing.getD []) (offset / 8 + 1)
        .ok ((readBit value offset).toInt, writeBit value offset bit)

end ValueCommand

namespace FlatMap

variable {map : FlatMap} {outside : Outside} {key : Bytes} {nowMs : ℕ}

/-- The deadline of a key, as its lifetime is reported. -/
def deadlineOf (map : FlatMap) (key : Bytes) : Option ℕ :=
  match map.entries.lookup key with
  | some entry => entry.expireAtMs
  | none => (map.remoteEntries.lookup key).bind (·.expireAtMs)

/-- No copy of the key carries a deadline. -/
def NoDeadline (key : Bytes) (map : FlatMap) : Prop :=
  (map.entries.lookup key).bind (·.expireAtMs) = none ∧
    (map.remoteEntries.lookup key).bind (·.expireAtMs) = none

theorem NoDeadline.deadlineOf (h : NoDeadline key map) : map.deadlineOf key = none := by
  unfold FlatMap.deadlineOf
  cases hentry : map.entries.lookup key with
  | none => exact h.2
  | some => simpa [hentry] using h.1

theorem noDeadline_kept (key : Bytes) : Kept (NoDeadline key) where
  delete {map} h other reason := by
    have hcell := (deleteHashedInternal_spec map other reason).cell key
    have hentry := congrArg FlatCell.entry hcell
    have hremote := congrArg FlatCell.remote hcell
    simp only [cell, FlatCell.deleted] at hentry hremote
    rw [NoDeadline, hentry, hremote]
    split_ifs with hother
    · subst hother
      cases hkey : map.entries.lookup key <;> simp_all [NoDeadline]
    · exact h
  deleteRemote {map} h other reason := by
    unfold deleteRemoteHashed
    cases map.remoteEntries.lookup other with
    | none => exact h
    | some =>
      refine ⟨?_, ?_⟩
      · cases reason <;> exact h.1
      · have hleft : ((map.remoteEntries.erase other).lookup key).bind (·.expireAtMs) = none := by
          rw [FinMap.lookup_erase_eq]
          split_ifs
          · rfl
          · exact h.2
        cases reason <;> exact hleft
  move {map other entry object} h hkey _ := by
    rcases eq_or_ne key other with rfl | hother
    · simpa [NoDeadline, moveToRemote, hkey] using h.1
    · simpa [NoDeadline, moveToRemote, hother] using h
  pending h _ _ _ := h

theorem set_noDeadline (map : FlatMap) (value : Bytes) :
    NoDeadline key (map.setBytesHashedWithGovernanceOption outside key value none none nowMs) := by
  have hremote := deleteRemoteHashed_lookup map key .explicit
  unfold setBytesHashedWithGovernanceOption setReplacing
  generalize (map.deleteRemoteHashed key .explicit).2 = cleared at hremote ⊢
  apply (noDeadline_kept key).enforceMemoryLimit
  split
  · rw [replaceOccupied, adjustTtlCount_eq]
    simp [NoDeadline, hremote]
  · simp [NoDeadline, insertVacant, hremote]

theorem transform_noDeadline {reply : ℤ} (map : FlatMap)
    {edit : Option Bytes → Except String (ℤ × Bytes)}
    (hok : (map.transformValueHashed outside key nowMs true edit).1 = .ok reply) :
    NoDeadline key (map.transformValueHashed outside key nowMs true edit).2 := by
  unfold transformValueHashed at hok ⊢
  generalize (if map.ttlEntries ≠ 0 then map.purgeExpired key nowMs else map) = purged at hok ⊢
  have hremote := deleteRemoteHashed_lookup purged key .explicit
  dsimp only at hok ⊢
  generalize (purged.deleteRemoteHashed key .explicit).2 = cleared at hok hremote ⊢
  split
  next entry hentry =>
    rw [hentry] at hok
    split
    next hedit => simp [hedit] at hok
    next =>
      apply (noDeadline_kept key).enforceMemoryLimit
      rw [if_pos rfl, adjustTtlCount_eq]
      simp [NoDeadline, hremote]
  next hentry =>
    rw [hentry] at hok
    split
    next hedit => simp [hedit] at hok
    next =>
      apply (noDeadline_kept key).enforceMemoryLimit
      simp [NoDeadline, insertVacant, hremote]

theorem update_deadlineOf (isUnique : Bool) (update : SliceUpdate)
    (hhit : (map.updateValueHashedNoTtl key isUnique update).1 = true) :
    (map.updateValueHashedNoTtl key isUnique update).2.deadlineOf key = none := by
  unfold updateValueHashedNoTtl at hhit ⊢
  cases hkey : map.entries.lookup key with
  | none => simp [hkey] at hhit
  | some =>
    simp only [hkey] at hhit ⊢
    split_ifs at hhit ⊢ with hfits <;>
      simpa [deadlineOf, FlatEntry.clearSemanticEmbedding] using hfits.2.1

/-- A successful read-modify-write leaves no deadline. -/
theorem execute_deadlineOf {command : ValueCommand} {reply : ℤ}
    (hok : (command.execute map outside key nowMs).1 = .ok reply) :
    (command.execute map outside key nowMs).2.deadlineOf key = none := by
  cases command with
  | transform => exact (transform_noDeadline map hok).deadlineOf
  | setRange => exact (set_noDeadline _ _).deadlineOf
  | setBit offset bit isUnique =>
    simp only [ValueCommand.execute] at hok ⊢
    split
    next entry hhit =>
      have hupdated := (Option.filter_eq_some_iff.mp hhit).2
      exact update_deadlineOf isUnique _ (Bool.and_eq_true_iff.mp hupdated).1
    next hmiss =>
      rw [hmiss] at hok
      exact (transform_noDeadline _ hok).deadlineOf

/-- A successful read-modify-write keeps the deadline of its key exactly when there is none. -/
theorem deadline_kept_iff {command : ValueCommand} {reply : ℤ}
    (hok : (command.execute map outside key nowMs).1 = .ok reply) :
    (command.execute map outside key nowMs).2.deadlineOf key = map.deadlineOf key ↔
      map.deadlineOf key = none := by
  rw [execute_deadlineOf hok]
  exact eq_comm

/-- A short value, with or without deadline. -/
def shortValue (expireAtMs : Option ℕ) : FlatMap :=
  ({} : FlatMap).setBytesHashed {} [107] [49] expireAtMs 0

theorem append_without_deadline :
    ((ValueCommand.appendValue [50]).execute (shortValue none) {} [107] 0).2.deadlineOf [107] =
      (shortValue none).deadlineOf [107] := by
  have hok : ((ValueCommand.appendValue [50]).execute (shortValue none) {} [107] 0).1 = .ok 2 := by
    decide
  exact (deadline_kept_iff hok).mpr (by decide)

theorem append_forgets_deadline :
    ((ValueCommand.appendValue [50]).execute (shortValue (some 1000)) {} [107] 0).1 = .ok 2 ∧
      (shortValue (some 1000)).deadlineOf [107] = some 1000 ∧
      ((ValueCommand.appendValue [50]).execute (shortValue (some 1000)) {} [107]
        0).2.deadlineOf [107] = none := by
  decide

end FlatMap
end ShardKv
