import ShardKv.Storage.FlatMapAccounting

/-!
# Completions and fault-in, key by key

The completion loop treats each key by its own pending put, so what it leaves at a
key is a function of what the key had. A fault-in is decided by the remote entry
that is left there.
-/
namespace ShardKv

/-- The value a governed read hands out; a denial is a miss to the caller. -/
def GovernedRead.released : GovernedRead → Option Bytes
  | .authorized value => some value
  | _ => none

/-- All that a flat map holds for one key. -/
structure FlatCell where
  entry : Option FlatEntry
  remote : Option RemoteEntry
  pending : Option PendingObjectOffload

namespace FlatCell

variable {cell : FlatCell}

/-- What the completion loop leaves of a cell. -/
def completed (cell : FlatCell) (outside : Outside) (runtime : ObjectOverflowRuntime)
    (nowMs : ℕ) : FlatCell :=
  match cell.pending with
  | none => cell
  | some pending =>
    match outside.pollPutValue pending.ticket with
    | none => cell
    | some result =>
      match result, cell.entry with
      | .error _, some entry =>
        if runtime.failurePolicy = .evictResident ∧ entry.value = pending.sourceValue then
          { cell with entry := none, pending := none }
        else { cell with pending := none }
      | .ok put, some entry =>
        if entry.value = pending.sourceValue ∧ entry.isExpired nowMs = false then
          { entry := none
            remote := some
              { object := put.ref pending.sourceValue
                expireAtMs := entry.expireAtMs
                governance := entry.governance }
            pending := none }
        else { cell with pending := none }
      | _, none => { cell with pending := none }

theorem completed_of_no_pending (h : cell.pending = none) (outside : Outside)
    (runtime : ObjectOverflowRuntime) (nowMs : ℕ) :
    cell.completed outside runtime nowMs = cell := by
  rw [completed, h]

/-- What a delete leaves of a cell. -/
def deleted (cell : FlatCell) : FlatCell :=
  match cell.entry with
  | some _ => { cell with entry := none }
  | none => { cell with remote := none }

/-- The finished put replaces the remote copy. -/
def moves (cell : FlatCell) (outside : Outside) (nowMs : ℕ) : Bool :=
  match cell.pending, cell.entry with
  | some pending, some entry =>
    (outside.pollPutValue pending.ticket).any Except.toBool &&
      decide (entry.value = pending.sourceValue) && !entry.isExpired nowMs
  | _, _ => false

theorem completed_remote_of_not_moves {outside : Outside} {nowMs : ℕ}
    (h : cell.moves outside nowMs = false) (runtime : ObjectOverflowRuntime) :
    (cell.completed outside runtime nowMs).remote = cell.remote := by
  unfold completed
  split
  · rfl
  · split
    · rfl
    · split
      · split_ifs <;> rfl
      next pending hpending result hpoll put entry hentry =>
        split_ifs
        · simp_all [moves, Except.toBool]
        · rfl
      · rfl

theorem completed_remote_of_moves {outside : Outside} {nowMs : ℕ}
    (h : cell.moves outside nowMs = true) (runtime : ObjectOverflowRuntime) :
    ∃ entry pending put, cell.entry = some entry ∧ cell.pending = some pending ∧
      outside.pollPutValue pending.ticket = some (.ok put) ∧
      (cell.completed outside runtime nowMs).remote = some
        { object := put.ref pending.sourceValue
          expireAtMs := entry.expireAtMs
          governance := entry.governance } := by
  unfold moves at h
  split at h
  next pending entry hpending hentry =>
    cases hpoll : outside.pollPutValue pending.ticket with
    | none => simp [hpoll] at h
    | some result =>
      cases result with
      | error => simp [hpoll, Except.toBool] at h
      | ok put =>
        simp only [hpoll, Option.any_some, Bool.and_eq_true, decide_eq_true_eq,
          Bool.not_eq_true'] at h
        refine ⟨entry, pending, put, hentry, hpending, hpoll, ?_⟩
        simp [completed, hpending, hpoll, hentry, h.1.2, h.2]
  next => cases h

/-- The finished put takes the resident entry away. -/
def leaves (cell : FlatCell) (outside : Outside) (runtime : ObjectOverflowRuntime) (nowMs : ℕ) :
    Bool :=
  match cell.pending, cell.entry with
  | some pending, some entry =>
    decide (entry.value = pending.sourceValue) &&
      (outside.pollPutValue pending.ticket).any fun result =>
        if result.toBool then !entry.isExpired nowMs
        else decide (runtime.failurePolicy = .evictResident)
  | _, _ => false

section

variable (cell) (outside : Outside) (runtime : ObjectOverflowRuntime) (nowMs : ℕ)

theorem completed_entry : (cell.completed outside runtime nowMs).entry =
      if cell.leaves outside runtime nowMs then none else cell.entry := by
  cases hpending : cell.pending with
  | none => simp [completed, leaves, hpending]
  | some pending =>
    cases hpoll : outside.pollPutValue pending.ticket with
    | none => cases hentry : cell.entry <;> simp [completed, leaves, hpending, hentry, hpoll]
    | some result =>
      cases hentry : cell.entry with
      | none => cases result <;> simp [completed, leaves, hpending, hentry, hpoll]
      | some entry =>
        cases result with
        | error =>
          by_cases hvalue : entry.value = pending.sourceValue <;>
            by_cases hpolicy : runtime.failurePolicy = .evictResident <;>
            simp [completed, leaves, hpending, hentry, hpoll, hvalue, hpolicy, Except.toBool]
        | ok =>
          by_cases hvalue : entry.value = pending.sourceValue <;>
            cases hlive : entry.isExpired nowMs <;>
            simp [completed, leaves, hpending, hentry, hpoll, hvalue, hlive, Except.toBool]

/-- A second look finds nothing more to do. -/
theorem completed_completed :
    (cell.completed outside runtime nowMs).completed outside runtime nowMs =
      cell.completed outside runtime nowMs := by
  cases hpending : cell.pending with
  | none => rw [completed_of_no_pending hpending, completed_of_no_pending hpending]
  | some pending =>
    cases hpoll : outside.pollPutValue pending.ticket with
    | none =>
      have hsame : cell.completed outside runtime nowMs = cell := by
        rw [completed, hpending]
        simp only [hpoll]
      rw [hsame, hsame]
    | some =>
      apply completed_of_no_pending
      rw [completed, hpending]
      simp only [hpoll]
      split
      · split_ifs <;> rfl
      · split_ifs <;> rfl
      · rfl

end
end FlatCell

namespace FlatMap

variable {map map' : FlatMap} {outside : Outside} {runtime : ObjectOverflowRuntime} {nowMs : ℕ}

def cell (map : FlatMap) (key : Bytes) : FlatCell where
  entry := map.entries.lookup key
  remote := map.remoteEntries.lookup key
  pending := map.pendingObjectOffloads.lookup key

theorem completeOffload_cell (map : FlatMap) (key other : Bytes) :
    (map.completeOffload outside runtime nowMs key).cell other =
      if other = key then (map.cell key).completed outside runtime nowMs else map.cell other := by
  cases hpending : map.pendingObjectOffloads.lookup key with
  | none =>
    rw [FlatCell.completed_of_no_pending hpending, completeOffload, hpending]
    exact (ite_eq_right_iff.mpr fun hother => by rw [hother]).symm
  | some pending =>
    simp only [completeOffload, FlatCell.completed, cell, hpending]
    cases outside.pollPutValue pending.ticket with
    | none => rcases eq_or_ne other key with rfl | hother <;> simp [*]
    | some result =>
      cases hkey : map.entries.lookup key with
      | none => cases result <;> rcases eq_or_ne other key with rfl | hother <;> simp [*]
      | some =>
        cases result with
        | error =>
          rcases eq_or_ne other key with rfl | hother <;> dsimp only <;> split_ifs <;>
            simp_all [deleteHashedInternal, removeEntry, countEviction]
        | ok =>
          rcases eq_or_ne other key with rfl | hother <;> dsimp only <;> split_ifs <;>
            simp_all [moveToRemote]

theorem foldl_completeOffload_cell (key : Bytes) :
    ∀ (keys : List Bytes) (map : FlatMap), keys.Nodup →
      (keys.foldl (fun map key => map.completeOffload outside runtime nowMs key) map).cell key =
        if key ∈ keys then (map.cell key).completed outside runtime nowMs else map.cell key := by
  intro keys
  induction keys with
  | nil => exact fun map _ => rfl
  | cons first keys ih =>
    intro map hnodup
    rw [List.nodup_cons] at hnodup
    rw [List.foldl_cons, ih _ hnodup.2, completeOffload_cell]
    by_cases hkey : key = first
    · rw [hkey, if_neg hnodup.1, if_pos rfl, if_pos List.mem_cons_self]
    · simp [hkey]

theorem completions_cell (hruntime : map.objectOverflow = some runtime) (key : Bytes) :
    (map.processObjectOverflowCompletions outside nowMs).cell key =
      (map.cell key).completed outside runtime nowMs := by
  simp only [processObjectOverflowCompletions, hruntime]
  rw [foldl_completeOffload_cell key _ _ map.pendingObjectOffloads.keys_nodup]
  split_ifs with hmem
  · rfl
  · rw [FlatCell.completed_of_no_pending]
    exact AList.lookup_eq_none.mpr hmem

/-- What no completion touches. -/
structure SameLimits (map map' : FlatMap) : Prop where
  objectOverflow : map'.objectOverflow = map.objectOverflow
  memoryLimitBytes : map'.memoryLimitBytes = map.memoryLimitBytes
  pendingObjectFaultBytes : map'.pendingObjectFaultBytes = map.pendingObjectFaultBytes

/-- What a delete answers and leaves. The counter of deadlines follows the copy that goes. -/
structure Deletion (map : FlatMap) (key : Bytes) (out : Bool × FlatMap) : Prop where
  flag : out.1 = ((map.entries.lookup key).isSome || (map.remoteEntries.lookup key).isSome)
  cell : ∀ other, out.2.cell other =
    if other = key then (map.cell key).deleted else map.cell other
  keys : out.2.entries.keys = (map.entries.erase key).keys
  remoteKeys : out.2.remoteEntries.keys =
    if (map.entries.lookup key).isSome then map.remoteEntries.keys
    else (map.remoteEntries.erase key).keys
  ttlEntries : out.2.ttlEntries =
    if ((map.entries.lookup key).map (·.expireAtMs) |>.or
        ((map.remoteEntries.lookup key).map (·.expireAtMs))).any Option.isSome then
      map.ttlEntries - 1
    else map.ttlEntries
  limits : SameLimits map out.2

theorem Deletion.countEviction {key : Bytes} {flag : Bool} (h : Deletion map key (flag, map'))
    (reason : DeleteReason) : Deletion map key (flag, map'.countEviction reason) := by
  unfold FlatMap.countEviction
  split_ifs
  · exact { h with limits := { h.limits with } }
  · exact h

theorem deleteHashedInternal_spec (map : FlatMap) (key : Bytes) (reason : DeleteReason) :
    Deletion map key (map.deleteHashedInternal key reason) := by
  unfold deleteHashedInternal
  cases hkey : map.entries.lookup key with
  | some entry =>
    apply Deletion.countEviction
    refine ⟨?_, fun other => ?_, rfl, ?_, ?_, rfl, rfl, rfl⟩
    · simp [hkey]
    · rcases eq_or_ne other key with rfl | hother <;>
        simp_all [FlatMap.cell, FlatCell.deleted, removeEntry]
    · simp [removeEntry, hkey]
    · cases hdeadline : entry.expireAtMs <;> simp [removeEntry, hkey, hdeadline]
  | none =>
    unfold deleteRemoteHashed
    cases hremote : map.remoteEntries.lookup key with
    | none =>
      refine ⟨by simp [hkey, hremote], fun other => ?_, ?_, ?_, by simp [hkey, hremote],
        rfl, rfl, rfl⟩
      · rcases eq_or_ne other key with rfl | hother <;> simp_all [FlatMap.cell, FlatCell.deleted]
      · rw [FinMap.erase_of_lookup_none hkey]
      · simp [hkey, FinMap.erase_of_lookup_none hremote]
    | some remote =>
      apply Deletion.countEviction
      refine ⟨?_, fun other => ?_, ?_, ?_, ?_, rfl, rfl, rfl⟩
      · simp [hkey, hremote]
      · rcases eq_or_ne other key with rfl | hother <;> simp_all [FlatMap.cell, FlatCell.deleted]
      · rw [FinMap.erase_of_lookup_none hkey]
      · simp [hkey]
      · cases hdeadline : remote.expireAtMs <;> simp [hkey, hremote, hdeadline]

theorem completeOffload_sameLimits (map : FlatMap) (key : Bytes) :
    SameLimits map (map.completeOffload outside runtime nowMs key) := by
  unfold completeOffload
  split
  · exact ⟨rfl, rfl, rfl⟩
  · split
    · exact ⟨rfl, rfl, rfl⟩
    · dsimp only
      split
      · split_ifs
        · exact { (deleteHashedInternal_spec
            { map with pendingObjectOffloads := map.pendingObjectOffloads.erase key } key
            .evicted).limits with }
        · exact ⟨rfl, rfl, rfl⟩
      · exact ⟨rfl, rfl, rfl⟩
      · split_ifs <;> exact ⟨rfl, rfl, rfl⟩
      · exact ⟨rfl, rfl, rfl⟩

theorem completions_sameLimits (hruntime : map.objectOverflow = some runtime) :
    SameLimits map (map.processObjectOverflowCompletions outside nowMs) := by
  simp only [processObjectOverflowCompletions, hruntime]
  generalize map.pendingObjectOffloads.keys = keys
  clear hruntime
  induction keys generalizing map with
  | nil => exact ⟨rfl, rfl, rfl⟩
  | cons key keys ih =>
    have hfirst : SameLimits map (map.completeOffload outside runtime nowMs key) :=
      completeOffload_sameLimits map key
    have hrest := @ih (map.completeOffload outside runtime nowMs key)
    exact ⟨hrest.1.trans hfirst.1, hrest.2.trans hfirst.2, hrest.3.trans hfirst.3⟩

/-- What a fetch of a remote entry answers. -/
def faultValue (map : FlatMap) (outside : Outside) (runtime : ObjectOverflowRuntime) (nowMs : ℕ)
    (allowProtected : Bool) : Option RemoteEntry → Option Bytes
  | none => none
  | some remote =>
    if !runtime.fetchOnGet then none
    else if remote.isProtected && !allowProtected then none
    else if remote.isExpired nowMs then none
    else if !map.canStartObjectFault remote.object.len then none
    else (outside.getValue remote.object).toOption

theorem SameLimits.canStartObjectFault {map map' : FlatMap} (h : SameLimits map map')
    (valueLen : ℕ) : map'.canStartObjectFault valueLen = map.canStartObjectFault valueLen := by
  unfold FlatMap.canStartObjectFault
  rw [h.memoryLimitBytes, h.pendingObjectFaultBytes]

section

variable {plan : ObjectFaultPlan} {remote : RemoteEntry}
    (hremote : map.remoteEntries.lookup plan.key = some remote)
    (hobject : remote.object = plan.object) (hlive : remote.isExpired nowMs = false)
include hremote hobject hlive

theorem finishObjectFault_value (outside : Outside) (result : Except Unit Bytes) :
    (map.finishObjectFault outside plan result nowMs).1 = result.map some := by
  cases result with
  | error => rfl
  | ok =>
    have hreleased : (map.releaseFault plan).remoteEntries.lookup plan.key = some remote := hremote
    simp [finishObjectFault, hreleased, hobject, hlive, Except.map]

/-- The blocking reads fetch between the two halves of a fault. -/
theorem fetch_value :
    (match map.finishObjectFault outside plan (outside.getValue plan.object) nowMs with
      | (.ok (some value), map) => (some value, map)
      | (_, map) => (none, map)).1 = (outside.getValue plan.object).toOption := by
  have hfinish := finishObjectFault_value hremote hobject hlive outside
    (outside.getValue plan.object)
  generalize map.finishObjectFault outside plan (outside.getValue plan.object) nowMs =
    finished at hfinish
  obtain ⟨result, after⟩ := finished
  simp only at hfinish
  subst hfinish
  cases outside.getValue plan.object <;> rfl

end

/-- A blocking fetch is decided by the remote entry that the completions leave. -/
theorem faultIn_value (hruntime : map.objectOverflow = some runtime) (key : Bytes)
    (allowProtected : Bool) :
    (map.faultIn outside key nowMs allowProtected).1 =
      map.faultValue outside runtime nowMs allowProtected
        ((map.cell key).completed outside runtime nowMs).remote := by
  have hlimits : SameLimits map (map.processObjectOverflowCompletions outside nowMs) :=
    completions_sameLimits hruntime
  rw [← completions_cell hruntime]
  unfold faultIn prepareObjectFaultHashed
  generalize map.processObjectOverflowCompletions outside nowMs = done at hlimits
  simp only [hlimits.objectOverflow, hruntime, cell]
  cases hremote : done.remoteEntries.lookup key with
  | none => rfl
  | some =>
    simp only [faultValue, hlimits.canStartObjectFault]
    split_ifs with hfetch hprotected hexpired
    · rfl
    · rfl
    · rfl
    · rfl
    · exact fetch_value hremote rfl (by simpa using hexpired)

theorem faultIn_none (hruntime : map.objectOverflow = none) (key : Bytes)
    (allowProtected : Bool) : (map.faultIn outside key nowMs allowProtected).1 = none := by
  simp [faultIn, prepareObjectFaultHashed, processObjectOverflowCompletions, hruntime]

/-- What a governed read releases from a cell. -/
def governedValue (map : FlatMap) (outside : Outside) (runtime : ObjectOverflowRuntime)
    (nowMs : ℕ) (authorize : Option Bytes → Bool) (cell : FlatCell) : Option Bytes :=
  match cell.entry.filter (fun entry => !entry.isExpired nowMs) with
  | some entry => if authorize entry.governance then some entry.value else none
  | none =>
    match cell.remote with
    | none => none
    | some remote =>
      if authorize remote.governance then
        map.faultValue outside runtime nowMs true (some remote)
      else none

theorem SameLimits.faultValue {map map' : FlatMap} (h : SameLimits map map') (outside : Outside)
    (runtime : ObjectOverflowRuntime) (nowMs : ℕ) (allowProtected : Bool)
    (remote : Option RemoteEntry) :
    map'.faultValue outside runtime nowMs allowProtected remote =
      map.faultValue outside runtime nowMs allowProtected remote := by
  cases remote with
  | none => rfl
  | some => simp only [FlatMap.faultValue, h.canStartObjectFault]

/-- The last part of a governed read is a fetch that may see protected values. -/
theorem governedFetch_released (done : FlatMap) (outside : Outside) (key : Bytes) (nowMs : ℕ) :
    (match
        match done.prepareObjectFaultHashed outside key nowMs true with
        | (none, map) => (GovernedObjectFault.missing, map)
        | (some plan, map) => (.remote plan, map)
      with
      | (.missing, map) => (GovernedRead.missing, map)
      | (.denied, map) => (.denied, map)
      | (.resident value, map) => (.authorized value, map)
      | (.remote plan, map) =>
        match map.finishObjectFault outside plan (outside.getValue plan.object) nowMs with
        | (.ok (some value), map) => (.authorized value, map)
        | (_, map) => (.missing, map)).1.released = (done.faultIn outside key nowMs true).1 := by
  unfold faultIn
  obtain ⟨plan, prepared⟩ := done.prepareObjectFaultHashed outside key nowMs true
  cases plan with
  | none => rfl
  | some plan =>
    dsimp only
    obtain ⟨result, finished⟩ :=
      prepared.finishObjectFault outside plan (outside.getValue plan.object) nowMs
    cases result with
    | error => rfl
    | ok value => cases value <;> rfl

/-- A governed read is decided by the cell that the completions leave. -/
theorem governedRead_released (hruntime : map.objectOverflow = some runtime) (key : Bytes)
    (authorize : Option Bytes → Bool) :
    (map.getValueBytesHashedWithGovernanceFilter outside key nowMs authorize).1.released =
      map.governedValue outside runtime nowMs authorize
        ((map.cell key).completed outside runtime nowMs) := by
  have hlimits : SameLimits map (map.processObjectOverflowCompletions outside nowMs) :=
    completions_sameLimits hruntime
  have hself : ((map.processObjectOverflowCompletions outside nowMs).cell key).completed
      outside runtime nowMs = (map.processObjectOverflowCompletions outside nowMs).cell key := by
    rw [completions_cell hruntime, FlatCell.completed_completed]
  rw [← completions_cell hruntime]
  unfold getValueBytesHashedWithGovernanceFilter prepareGovernedObjectFaultHashed governedValue
  generalize map.processObjectOverflowCompletions outside nowMs = done at hlimits hself ⊢
  have hfetch : (done.faultIn outside key nowMs true).1 = _ :=
    faultIn_value (hlimits.objectOverflow.trans hruntime) key true
  rw [hself, hlimits.faultValue] at hfetch
  simp only [cell] at hfetch ⊢
  cases (done.entries.lookup key).filter fun entry => !entry.isExpired nowMs with
  | some =>
    dsimp only
    split_ifs <;> rfl
  | none =>
    cases hremote : done.remoteEntries.lookup key with
    | none => rfl
    | some remote =>
      rw [hremote] at hfetch
      dsimp only
      cases hexpired : remote.isExpired nowMs with
      | true => simp [hexpired, faultValue, GovernedRead.released]
      | false =>
        cases authorize remote.governance with
        | false => rfl
        | true => exact (governedFetch_released done outside key nowMs).trans hfetch

/-- Without a runtime only the table is read. -/
theorem governedRead_released_none (hruntime : map.objectOverflow = none) (key : Bytes)
    (authorize : Option Bytes → Bool) :
    (map.getValueBytesHashedWithGovernanceFilter outside key nowMs authorize).1.released =
      ((map.entries.lookup key).filter fun entry => !entry.isExpired nowMs).bind fun entry =>
        if authorize entry.governance then some entry.value else none := by
  unfold getValueBytesHashedWithGovernanceFilter prepareGovernedObjectFaultHashed
  simp only [processObjectOverflowCompletions, hruntime]
  cases (map.entries.lookup key).filter fun entry => !entry.isExpired nowMs with
  | some =>
    dsimp only [Option.bind]
    split_ifs <;> rfl
  | none =>
    cases map.remoteEntries.lookup key with
    | none => rfl
    | some =>
      dsimp only
      split_ifs
      · rfl
      · rfl
      · simp [prepareObjectFaultHashed, processObjectOverflowCompletions, GovernedRead.released]

end FlatMap
end ShardKv
